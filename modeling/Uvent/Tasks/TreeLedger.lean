import Uvent.Tasks.TreeRefs

/-!
# The books of the references

Every step moves a reference from one holder to another, makes one, or drops one, and the
counters follow.
-/

namespace Uvent.Tasks.CancelTree

open Uvent.Lib Uvent.Sync
open Uvent.Net.StateWord (Build)

section Views

variable {s : State}

@[simp] theorem points_goto (s : State) (t : Nat) (th : Thread) :
    (s.goto t th).points = Function.update s.points (.thread t) th.hand := by
  funext h
  cases h with
  | thread t' =>
      by_cases ht : t' = t
      · subst ht
        simp [State.points, State.goto]
      · have hne : Holder.thread t' ≠ .thread t := fun heq => ht (Holder.thread.inj heq)
        rw [Function.update_of_ne hne]
        exact congrArg Thread.hand (Function.update_of_ne ht ..)
  | handle | running | registry | child | entry =>
      rw [Function.update_of_ne (by simp)]
      rfl

@[simp] theorem kickView_goto (s : State) (f : Thread → Option Nat) (t : Nat) (th : Thread) :
    (s.goto t th).kickView f = Function.update (s.kickView f) (.thread t) (f th) := by
  funext h
  cases h with
  | thread t' =>
      by_cases ht : t' = t
      · subst ht
        simp [State.kickView, State.goto]
      · have hne : Holder.thread t' ≠ .thread t := fun heq => ht (Holder.thread.inj heq)
        rw [Function.update_of_ne hne]
        exact congrArg f (Function.update_of_ne ht ..)
  | handle | running | registry | child | entry =>
      rw [Function.update_of_ne (by simp)]
      rfl

@[simp] theorem graves_goto (s : State) (t : Nat) (th : Thread) :
    (s.goto t th).graves = Function.update s.graves t th.burying := by
  funext t'
  by_cases ht : t' = t
  · subst ht
    simp [State.graves, State.goto]
  · rw [Function.update_of_ne ht]
    exact congrArg Thread.burying (Function.update_of_ne ht ..)

theorem points_handle (s : State) (i : Nat) (v : Option Nat) :
    { s with handle := Function.update s.handle i v }.points =
      Function.update s.points (.handle i) v := by
  funext h
  cases h with
  | handle i' =>
      by_cases hi : i' = i
      · subst hi
        simp [State.points]
      · have hne : Holder.handle i' ≠ .handle i := fun heq => hi (Holder.handle.inj heq)
        rw [Function.update_of_ne hne]
        exact Function.update_of_ne hi ..
  | running | registry | child | entry | thread =>
      rw [Function.update_of_ne (by simp)]
      rfl

theorem points_running (s : State) (n : Nat) (b : Bool) :
    { s with running := Function.update s.running n b }.points =
      Function.update s.points (.running n) (if b then some n else none) := by
  funext h
  cases h with
  | running n' =>
      by_cases hn : n' = n
      · subst hn
        simp [State.points]
      · have hne : Holder.running n' ≠ .running n := fun heq => hn (Holder.running.inj heq)
        rw [Function.update_of_ne hne]
        simp [State.points, Function.update_of_ne hn]
  | handle | registry | child | entry | thread =>
      rw [Function.update_of_ne (by simp)]
      rfl

theorem points_registered (s : State) (n : Nat) (b : Bool) :
    { s with registered := Function.update s.registered n b }.points =
      Function.update s.points (.registry n) (if b then some n else none) := by
  funext h
  cases h with
  | registry n' =>
      by_cases hn : n' = n
      · subst hn
        simp [State.points]
      · have hne : Holder.registry n' ≠ .registry n := fun heq => hn (Holder.registry.inj heq)
        rw [Function.update_of_ne hne]
        simp [State.points, Function.update_of_ne hn]
  | handle | running | child | entry | thread =>
      rw [Function.update_of_ne (by simp)]
      rfl

theorem points_parent (s : State) (c : Nat) (p : Option Nat) (hc : s.deleted c = 0) :
    { s with parent := Function.update s.parent c p }.points =
      Function.update s.points (.child c) p := by
  funext h
  cases h with
  | child c' =>
      by_cases hn : c' = c
      · subst hn
        simp [State.points, hc]
      · have hne : Holder.child c' ≠ .child c := fun heq => hn (Holder.child.inj heq)
        rw [Function.update_of_ne hne]
        simp [State.points, Function.update_of_ne hn]
  | handle | running | registry | entry | thread =>
      rw [Function.update_of_ne (by simp)]
      rfl

theorem points_deleted (s : State) (n : Nat) :
    { s with deleted := Function.update s.deleted n (s.deleted n + 1) }.points =
      Function.update s.points (.child n) none := by
  funext h
  cases h with
  | child c' =>
      by_cases hn : c' = n
      · subst hn
        simp [State.points]
      · have hne : Holder.child c' ≠ .child n := fun heq => hn (Holder.child.inj heq)
        rw [Function.update_of_ne hne]
        simp [State.points, Function.update_of_ne hn]
  | handle | running | registry | entry | thread =>
      rw [Function.update_of_ne (by simp)]
      rfl

theorem kicks_view {w n : Nat} {l : List Nat} (hother : ∀ m, m ≠ n → (m ∈ l ↔ m ∈ s.kicks w))
    (view : Holder → Option Nat) (view' : Holder → Option Nat)
    (hview : ∀ w m, view (.entry w m) = if m ∈ s.kicks w then some m else none)
    (hview' : ∀ w' m, view' (.entry w' m) =
      if m ∈ Function.update s.kicks w l w' then some m else none)
    (hsame : ∀ h, (∀ w m, h ≠ .entry w m) → view' h = view h) :
    view' = Function.update view (.entry w n) (if n ∈ l then some n else none) := by
  funext h
  by_cases hentry : ∃ w' m, h = .entry w' m
  · obtain ⟨w', m, rfl⟩ := hentry
    by_cases hself : w' = w ∧ m = n
    · obtain ⟨rfl, rfl⟩ := hself
      rw [Function.update_self, hview', Function.update_self]
    · have hne : Holder.entry w' m ≠ .entry w n := by
        intro heq
        obtain ⟨hw, hm⟩ := Holder.entry.inj heq
        exact hself ⟨hw, hm⟩
      rw [Function.update_of_ne hne, hview, hview']
      by_cases hw : w' = w
      · subst hw
        rw [Function.update_self]
        simp [hother m fun hm => hself ⟨rfl, hm⟩]
      · rw [Function.update_of_ne hw]
  · have hout : ∀ w m, h ≠ .entry w m := fun w m heq => hentry ⟨w, m, heq⟩
    rw [Function.update_of_ne (hout w n), hsame h hout]

theorem points_kicks {w n : Nat} {l : List Nat} (hother : ∀ m, m ≠ n → (m ∈ l ↔ m ∈ s.kicks w)) :
    { s with kicks := Function.update s.kicks w l }.points =
      Function.update s.points (.entry w n) (if n ∈ l then some n else none) := by
  refine kicks_view hother _ _ (fun _ _ => rfl) (fun _ _ => rfl) fun h hout => ?_
  cases h with
  | entry w' m => exact absurd rfl (hout w' m)
  | handle | running | registry | child | thread => rfl

theorem kickView_kicks (f : Thread → Option Nat) {w n : Nat} {l : List Nat}
    (hother : ∀ m, m ≠ n → (m ∈ l ↔ m ∈ s.kicks w)) :
    { s with kicks := Function.update s.kicks w l }.kickView f =
      Function.update (s.kickView f) (.entry w n) (if n ∈ l then some n else none) := by
  refine kicks_view hother _ _ (fun _ _ => rfl) (fun _ _ => rfl) fun h hout => ?_
  cases h with
  | entry w' m => exact absurd rfl (hout w' m)
  | handle | running | registry | child | thread => rfl

end Views

/-! ## Steps without kicks and deletions -/

section Pass

variable {s s' x : State} {t n : Nat} {th old : Thread}

structure SameKicks (s s' : State) : Prop where
  kicking : s'.kickView Thread.kicking = s.kickView Thread.kicking
  unkicking : s'.kickView Thread.unkicking = s.kickView Thread.unkicking
  graves : s'.graves = s.graves
  kicks : s'.kicks = s.kicks
  pending : s'.kickPending = s.kickPending
  enqueued : s'.enqueued = s.enqueued
  unkicked : s'.unkicked = s.unkicked
  deleted : s'.deleted = s.deleted

theorem kickView_pass (pc : s.threads t = old) (hkicks : x.kicks = s.kicks)
    (hthreads : x.threads = s.threads) {f : Thread → Option Nat} (hth : f th = f old) :
    (x.goto t th).kickView f = s.kickView f := by
  have hview : x.kickView f = s.kickView f := by
    funext h
    unfold State.kickView
    rw [hkicks, hthreads]
  rw [kickView_goto, hview, hth, ← pc]
  exact Function.update_eq_self ..

theorem graves_pass (pc : s.threads t = old) (hthreads : x.threads = s.threads)
    (hth : th.burying = old.burying) : (x.goto t th).graves = s.graves := by
  have hview : x.graves = s.graves := by
    funext h
    unfold State.graves
    rw [hthreads]
  rw [graves_goto, hview, hth, ← pc]
  exact Function.update_eq_self ..

theorem SameKicks.goto (pc : s.threads t = old) (hkicks : x.kicks = s.kicks)
    (hpending : x.kickPending = s.kickPending) (henqueued : x.enqueued = s.enqueued)
    (hunkicked : x.unkicked = s.unkicked) (hdeleted : x.deleted = s.deleted)
    (hthreads : x.threads = s.threads) (hkicking : th.kicking = old.kicking)
    (hunkicking : th.unkicking = old.unkicking) (hburying : th.burying = old.burying) :
    SameKicks s (x.goto t th) where
  kicking := kickView_pass pc hkicks hthreads hkicking
  unkicking := kickView_pass pc hkicks hthreads hunkicking
  graves := graves_pass pc hthreads hburying
  kicks := hkicks
  pending := hpending
  enqueued := henqueued
  unkicked := hunkicked
  deleted := hdeleted

theorem Buried.of_zero (h : Buried s) (hgraves : s'.graves = s.graves)
    (hdeleted : s'.deleted = s.deleted)
    (hzero : ∀ n, (n < s'.next ∧ s'.refs n = 0) ↔ (n < s.next ∧ s.refs n = 0)) : Buried s' := by
  obtain ⟨k, hk, hsum⟩ := h
  refine ⟨k, hgraves ▸ hk, fun n => ?_⟩
  rw [hdeleted, hsum n]
  simp only [hzero n]

theorem Ledger.of_sameKicks (h : Ledger s) (hkicks : SameKicks s s') (hmakers : Makers s')
    (hrefs : RefCounted s'.points s'.refs) (hfresh : ∀ n, s'.next ≤ n → s'.refs n = 0)
    (hzero : ∀ n, (n < s'.next ∧ s'.refs n = 0) ↔ (n < s.next ∧ s.refs n = 0)) : Ledger s' := by
  refine ⟨hmakers, hrefs, hfresh, ?_, ?_, h.buried.of_zero hkicks.graves hkicks.deleted hzero, ?_⟩
  · rw [hkicks.kicking, hkicks.pending]
    exact h.pending
  · rw [hkicks.kicks]
    exact h.nodup
  · unfold Unkicks
    rw [hkicks.unkicking, hkicks.enqueued, hkicks.unkicked]
    exact h.unkicks

structure SameBooks (s x : State) : Prop where
  next : x.next = s.next
  refs : x.refs = s.refs
  kickPending : x.kickPending = s.kickPending
  kicks : x.kicks = s.kicks
  handle : x.handle = s.handle
  running : x.running = s.running
  registered : x.registered = s.registered
  parent : x.parent = s.parent
  threads : x.threads = s.threads
  deleted : x.deleted = s.deleted
  enqueued : x.enqueued = s.enqueued
  unkicked : x.unkicked = s.unkicked

theorem SameBooks.points (h : SameBooks s x) : x.points = s.points := by
  funext holder
  unfold State.points
  rw [h.kicks, h.handle, h.running, h.registered, h.parent, h.threads, h.deleted]

theorem Ledger.pass (h : Ledger s) (pc : s.threads t = old) (hx : SameBooks s x)
    (hsame : old.Same th) (hmaking : ∀ c pc', th = .making c pc' →
      ∃ pc, old = .making c pc ∧ pc.rank ≤ pc'.rank) : Ledger (x.goto t th) := by
  refine h.of_sameKicks ?_ ?_ ?_ ?_ ?_
  · exact .goto pc hx.kicks hx.kickPending hx.enqueued hx.unkicked hx.deleted hx.threads
      hsame.kicking hsame.unkicking hsame.burying
  · have hupdate : (x.goto t th).threads = Function.update s.threads t th := by
      rw [← hx.threads]
      rfl
    refine h.makers.move hupdate hx.next ?_ ?_ ?_ ?_
    · intro c pc' heq
      rw [pc]
      exact hmaking c pc' heq
    · exact fun n => .inl (congrFun hx.parent n)
    · exact fun n hn => .inl ((congrFun hx.running n).symm.trans hn)
    · exact fun n hn => .inl ((congrFun hx.registered n).symm.trans hn)
  · have hpoints : (x.goto t th).points = s.points := by
      rw [points_goto, hx.points, hsame.hand, ← pc]
      exact Function.update_eq_self ..
    rw [hpoints]
    exact hx.refs ▸ h.refs
  · intro n hn
    have hrefs : (x.goto t th).refs n = s.refs n := congrFun hx.refs n
    rw [hrefs]
    exact h.fresh n (hx.next ▸ hn)
  · intro n
    show (n < x.next ∧ x.refs n = 0) ↔ _
    rw [hx.next, hx.refs]

theorem Ledger.of_same (h : Ledger s) (hx : SameBooks s s') : Ledger s' := by
  have hview : ∀ f, s'.kickView f = s.kickView f := by
    intro f
    funext holder
    unfold State.kickView
    rw [hx.kicks, hx.threads]
  have hgraves : s'.graves = s.graves := by
    funext t
    unfold State.graves
    rw [hx.threads]
  refine h.of_sameKicks ⟨hview _, hview _, hgraves, hx.kicks, hx.kickPending, hx.enqueued,
    hx.unkicked, hx.deleted⟩ (h.makers.of_same hx.threads hx.next hx.parent hx.running
      hx.registered) ?_ ?_ ?_
  · rw [hx.points, hx.refs]
    exact h.refs
  · rw [hx.next, hx.refs]
    exact h.fresh
  · rw [hx.next, hx.refs]
    exact fun _ => Iff.rfl

theorem Ledger.lt (h : Ledger s) (hrefs : s.refs n ≠ 0) : n < s.next := by
  by_contra hle
  exact hrefs (h.fresh n (by omega))

theorem Ledger.undeleted (h : Ledger s) (hrefs : s.refs n ≠ 0) : s.deleted n = 0 := by
  obtain ⟨k, -, hsum⟩ := h.buried
  have hn := hsum n
  rw [if_neg fun hc => hrefs hc.2] at hn
  omega

theorem Ledger.refs_ne (h : Ledger s) {a : Holder} (ha : s.points a = some n) :
    s.refs n ≠ 0 := (h.refs.pos ha).ne'

theorem Ledger.held (h : Ledger s) (hn : s.Held n) : s.refs n ≠ 0 := by
  rcases hn with ⟨i, hi⟩ | hrun | hentry
  · exact h.refs_ne (a := .handle i) hi
  · exact h.refs_ne (a := .running n) (if_pos hrun)
  · exact h.refs_ne (a := .registry n) (if_pos hentry)

end Pass

/-! ## References that are taken and given -/

section Refs

variable {build : Build} {s s' x : State} {t n : Nat} {th old : Thread} {a : Holder}

/-- A holder that refers to nothing takes up a node that has another one. -/
theorem Ledger.take (h : Ledger s) (hkicks : SameKicks s s') (hmakers : Makers s')
    (hfree : s.points a = none) (hn : s.refs n ≠ 0)
    (hpoints : s'.points = Function.update s.points a (some n))
    (hrefs : s'.refs = Function.update s.refs n (s.refs n + 1)) (hnext : s'.next = s.next) :
    Ledger s' := by
  refine h.of_sameKicks hkicks hmakers ?_ ?_ ?_
  · rw [hpoints, hrefs]
    exact h.refs.acquire hfree
  · intro m hm
    rw [hnext] at hm
    have hne : m ≠ n := by
      rintro rfl
      exact hn (h.fresh m hm)
    rw [hrefs, Function.update_of_ne hne]
    exact h.fresh m hm
  · intro m
    rw [hnext, hrefs]
    by_cases hm : m = n
    · subst hm
      rw [Function.update_self]
      exact iff_of_false (fun hc => Nat.succ_ne_zero _ hc.2) (fun hc => hn hc.2)
    · rw [Function.update_of_ne hm]

theorem Ledger.pick (h : Ledger s) (pc : s.threads t = .idle) (ha : s.points a = some n)
    (hpoints : x.points = Function.update s.points a none) (hrefs : x.refs = s.refs)
    (hnext : x.next = s.next)
    (hkicks : SameKicks s (x.goto t (.releasing n (.drop false))))
    (hmakers : Makers (x.goto t (.releasing n (.drop false)))) :
    Ledger (x.goto t (.releasing n (.drop false))) := by
  have hfree : s.points (.thread t) = none := by
    show (s.threads t).hand = none
    rw [pc]
    rfl
  refine h.of_sameKicks hkicks hmakers ?_ ?_ ?_
  · rw [points_goto, hpoints]
    show RefCounted _ x.refs
    rw [hrefs]
    exact h.refs.move ha hfree
  · intro m hm
    show x.refs m = 0
    rw [hrefs]
    exact h.fresh m (hnext ▸ hm)
  · intro m
    show (m < x.next ∧ x.refs m = 0) ↔ _
    rw [hnext, hrefs]

theorem make_ledger (h : Ledger s) (pc : s.threads t = .idle) (task : Bool) (making : Making) :
    Ledger ((s.alloc task).goto t (.making s.next making)) := by
  have hzero : s.refs s.next = 0 := h.fresh s.next (Nat.le_refl _)
  have hfree : s.points (.thread t) = none := by
    show (s.threads t).hand = none
    rw [pc]
    rfl
  refine h.of_sameKicks (.goto pc rfl rfl rfl rfl rfl rfl rfl rfl rfl) (h.makers.make pc task making)
    ?_ ?_ ?_
  · have hacquired := h.refs.acquire (n := s.next) hfree
    rw [hzero] at hacquired
    rw [points_goto]
    exact hacquired
  · intro m hm
    have hle : s.next + 1 ≤ m := hm
    show Function.update s.refs s.next 1 m = 0
    rw [Function.update_of_ne (by omega)]
    exact h.fresh m (by omega)
  · intro m
    show (m < s.next + 1 ∧ Function.update s.refs s.next 1 m = 0) ↔ _
    by_cases hm : m = s.next
    · subst hm
      rw [Function.update_self]
      exact iff_of_false (fun hc => Nat.one_ne_zero hc.2) (fun hc => absurd hc.1 (lt_irrefl _))
    · rw [Function.update_of_ne hm]
      exact and_congr_left fun _ => by omega

theorem retain_ledger (h : Ledger s) {c p : Nat} (pc : s.threads t = .making c (.retain p))
    (held : s.Held p) :
    Ledger ({ s.addRef p with parent := Function.update s.parent c (some p) }.goto t
      (.making c (.link p))) := by
  have hin : s.points (.thread t) = some c := by
    show (s.threads t).hand = some c
    rw [pc]
    rfl
  have horphan := h.makers.orphan t c _ pc rfl
  have hundeleted : s.deleted c = 0 := h.undeleted (h.refs_ne hin)
  refine h.take (a := .child c) (n := p) (.goto pc rfl rfl rfl rfl rfl rfl rfl rfl rfl) ?_ ?_
    (h.held held) ?_ rfl rfl
  · refine h.makers.move rfl rfl ?_ ?_ (fun _ => .inl) (fun _ => .inl)
    · intro c' pc' heq
      obtain ⟨rfl, rfl⟩ := Thread.making.inj heq
      exact ⟨_, pc, Nat.zero_le _⟩
    · intro m
      by_cases hm : m = c
      · subst hm
        exact .inr ⟨_, rfl, Nat.le_refl _⟩
      · exact .inl (Function.update_of_ne hm ..)
  · show (if s.deleted c = 0 then s.parent c else none) = none
    rw [if_pos hundeleted, horphan]
  · have hpoints : { s.addRef p with parent := Function.update s.parent c (some p) }.points =
        Function.update s.points (.child c) (some p) := points_parent (s.addRef p) c _ hundeleted
    rw [points_goto, hpoints]
    refine Function.update_eq_self_iff.mpr ?_
    rw [Function.update_of_ne (by simp), hin]
    rfl

theorem born_ledger (h : Ledger s) {c : Nat} {making making' : Making}
    (pc : s.threads t = .making c making) (hx : x.points = Function.update s.points a (some c))
    (hself : a ≠ .thread t) (hfree : s.points a = none) (hrefs : x.refs = (s.addRef c).refs)
    (hnext : x.next = s.next) (hkicks : SameKicks s (x.goto t (.making c making')))
    (hmakers : Makers (x.goto t (.making c making'))) : Ledger (x.goto t (.making c making')) := by
  have hin : s.points (.thread t) = some c := by
    show (s.threads t).hand = some c
    rw [pc]
    rfl
  refine h.take (a := a) (n := c) hkicks hmakers hfree (h.refs_ne hin) ?_ hrefs hnext
  rw [points_goto, hx]
  refine Function.update_eq_self_iff.mpr ?_
  rw [Function.update_of_ne hself.symm, hin]
  rfl

theorem run_ledger (h : Ledger s) {c : Nat} (pc : s.threads t = .making c .run) :
    Ledger ({ s.addRef c with running := Function.update s.running c true }.goto t
      (.making c .register)) := by
  have hstopped := h.makers.stopped t c _ pc (Nat.le_refl _)
  refine born_ledger h (a := .running c) pc (points_running (s.addRef c) c true) (by simp) ?_ rfl rfl
    (.goto pc rfl rfl rfl rfl rfl rfl rfl rfl rfl) ?_
  · show (if s.running c then some c else none) = none
    rw [hstopped]
    rfl
  · refine h.makers.move rfl rfl ?_ (fun _ => .inl rfl) ?_ (fun _ => .inl)
    · intro c' pc' heq
      obtain ⟨rfl, rfl⟩ := Thread.making.inj heq
      exact ⟨_, pc, Nat.le_succ _⟩
    · intro m hm
      by_cases hmc : m = c
      · subst hmc
        exact .inr ⟨_, rfl, Nat.le_refl _⟩
      · exact .inl ((Function.update_of_ne hmc ..).symm.trans hm)

theorem register_ledger (h : Ledger s) {c : Nat} (pc : s.threads t = .making c .register) :
    Ledger ({ s.addRef c with registered := Function.update s.registered c true }.goto t
      (.making c .spawn)) := by
  have hunlisted := h.makers.unlisted t c _ pc (Nat.le_refl _)
  refine born_ledger h (a := .registry c) pc (points_registered (s.addRef c) c true) (by simp) ?_ rfl
    rfl (.goto pc rfl rfl rfl rfl rfl rfl rfl rfl rfl) ?_
  · show (if s.registered c then some c else none) = none
    rw [hunlisted]
    rfl
  · refine h.makers.move rfl rfl ?_ (fun _ => .inl rfl) (fun _ => .inl) ?_
    · intro c' pc' heq
      obtain ⟨rfl, rfl⟩ := Thread.making.inj heq
      exact ⟨_, pc, Nat.le_succ _⟩
    · intro m hm
      by_cases hmc : m = c
      · subst hmc
        exact .inr ⟨_, rfl, Nat.le_refl _⟩
      · exact .inl ((Function.update_of_ne hmc ..).symm.trans hm)

theorem give_ledger (h : Ledger s) {c i : Nat} (pc : s.threads t = .making c .give)
    (unused : s.handle i = none) :
    Ledger ({ s with handle := Function.update s.handle i (some c) }.goto t .idle) := by
  have hin : s.points (.thread t) = some c := by
    show (s.threads t).hand = some c
    rw [pc]
    rfl
  refine h.of_sameKicks (.goto pc rfl rfl rfl rfl rfl rfl rfl rfl rfl) ?_ ?_ h.fresh
    (fun _ => Iff.rfl)
  · exact h.makers.leave (t := t) rfl rfl (by simp) rfl (fun _ => id) (fun _ => id)
  · rw [points_goto, points_handle, Function.update_comm (by simp)]
    exact h.refs.move hin unused

theorem copy_ledger (h : Ledger s) {i : Nat} (unused : s.handle i = none) (held : s.Held n) :
    Ledger { s.addRef n with handle := Function.update s.handle i (some n) } :=
  h.take (a := .handle i) ⟨rfl, rfl, rfl, rfl, rfl, rfl, rfl, rfl⟩
    (h.makers.of_same rfl rfl rfl rfl rfl) unused (h.held held)
    (points_handle (s.addRef n) i (some n)) rfl rfl

theorem detach_ledger (h : Ledger s) {i : Nat} (pc : s.threads t = .idle)
    (points : s.handle i = some n) :
    Ledger ({ s with handle := Function.update s.handle i none }.goto t
      (.releasing n (.drop false))) :=
  h.pick (a := .handle i) pc points (points_handle s i none) rfl rfl
    (.goto pc rfl rfl rfl rfl rfl rfl rfl rfl rfl)
    (h.makers.leave rfl rfl (by simp) rfl (fun _ => id) (fun _ => id))

theorem complete_ledger (h : Ledger s) (pc : s.threads t = .idle) (running : s.running n = true) :
    Ledger ({ s with
      status := Function.update s.status n true,
      running := Function.update s.running n false }.goto t (.releasing n (.drop false))) := by
  refine h.pick (a := .running n) pc (if_pos running) (points_running s n false) rfl rfl
    (.goto pc rfl rfl rfl rfl rfl rfl rfl rfl rfl)
    (h.makers.leave rfl rfl (by simp) rfl ?_ (fun _ => id))
  intro m hm
  by_cases hmn : m = n
  · subst hmn
    exact running
  · exact (Function.update_of_ne hmn ..).symm.trans hm

theorem unregister_ledger (h : Ledger s) (pc : s.threads t = .idle)
    (entry : s.registered n = true) :
    Ledger ({ s with registered := Function.update s.registered n false }.goto t
      (.releasing n (.drop false))) := by
  refine h.pick (a := .registry n) pc (if_pos entry) (points_registered s n false) rfl rfl
    (.goto pc rfl rfl rfl rfl rfl rfl rfl rfl rfl)
    (h.makers.leave rfl rfl (by simp) rfl (fun _ => id) ?_)
  intro m hm
  by_cases hmn : m = n
  · subst hmn
    exact entry
  · exact (Function.update_of_ne hmn ..).symm.trans hm

end Refs

/-! ## Kicks -/

section Kicks

variable {s x : State} {t n w : Nat} {th old : Thread} {below : List Frame}

theorem toNat_update (f : Nat → Bool) (n : Nat) (b : Bool) :
    (fun m => (Function.update f n b m).toNat) =
      Function.update (fun m => (f m).toNat) n b.toNat := by
  funext m
  by_cases hm : m = n
  · subst hm
    rw [Function.update_self, Function.update_self]
  · rw [Function.update_of_ne hm, Function.update_of_ne hm]

/-- The queue of a worker has a node once. -/
theorem Ledger.not_queued (h : Ledger s) (pc : s.threads t = old) (hold : old.kicking = some n) :
    n ∉ s.kicks w := by
  intro hin
  have hthread : s.kickView Thread.kicking (.thread t) = some n := by
    show (s.threads t).kicking = some n
    rw [pc]
    exact hold
  have hentry : s.kickView Thread.kicking (.entry w n) = some n := if_pos hin
  cases h.pending.unique (Bool.toNat_le _) hthread hentry

theorem Ledger.of_pending (h : Ledger s) (pc : s.threads t = old)
    (hx : SameBooks s { x with kickPending := s.kickPending }) (hsame : old.hand = th.hand)
    (hunkicking : th.unkicking = old.unkicking) (hburying : th.burying = old.burying)
    (hmaking : ∀ c pc, th ≠ .making c pc)
    (hpending : RefCounted (Function.update (s.kickView Thread.kicking) (.thread t) th.kicking)
      (fun m => (x.kickPending m).toNat)) : Ledger (x.goto t th) := by
  have hpoints : x.points = s.points := hx.points
  have hkicks : x.kicks = s.kicks := hx.kicks
  have hthreads : x.threads = s.threads := hx.threads
  have hview : x.kickView Thread.kicking = s.kickView Thread.kicking := by
    funext holder
    unfold State.kickView
    rw [hkicks, hthreads]
  refine ⟨?_, ?_, ?_, ?_, ?_, h.buried.of_zero (graves_pass pc hthreads hburying) hx.deleted ?_, ?_⟩
  · have hupdate : (x.goto t th).threads = Function.update s.threads t th := by
      rw [← hthreads]
      rfl
    refine h.makers.leave hupdate hx.next hmaking hx.parent (fun m hm => ?_) (fun m hm => ?_)
    · exact (congrFun hx.running m).symm.trans hm
    · exact (congrFun hx.registered m).symm.trans hm
  · rw [points_goto, hpoints, ← hsame, ← pc]
    rw [show Function.update s.points (.thread t) (s.threads t).hand = s.points from
      Function.update_eq_self ..]
    exact hx.refs ▸ h.refs
  · intro m hm
    show x.refs m = 0
    rw [show x.refs = s.refs from hx.refs]
    exact h.fresh m ((show x.next = s.next from hx.next) ▸ hm)
  · rw [kickView_goto, hview]
    exact hpending
  · show ∀ w, (x.kicks w).Nodup
    rw [hkicks]
    exact h.nodup
  · intro m
    show (m < x.next ∧ x.refs m = 0) ↔ _
    rw [show x.next = s.next from hx.next, show x.refs = s.refs from hx.refs]
  · unfold Unkicks
    rw [kickView_pass pc hkicks hthreads hunkicking]
    rw [show (x.goto t th).enqueued = s.enqueued from hx.enqueued,
      show (x.goto t th).unkicked = s.unkicked from hx.unkicked]
    exact h.unkicks

theorem kickFlag_ledger (h : Ledger s)
    (pc : s.threads t = .cancelling (⟨n, .kickFlag w⟩ :: below)) :
    Ledger ({ s with kickPending := Function.update s.kickPending n true }.goto t
      (.cancelling (⟨n, if s.kickPending n then .lock else .kickTake w⟩ :: below))) := by
  cases hflag : s.kickPending n with
  | true =>
      have hsame : Function.update s.kickPending n true = s.kickPending :=
        Function.update_eq_self_iff.mpr hflag.symm
      rw [hsame]
      exact h.pass pc ⟨rfl, rfl, rfl, rfl, rfl, rfl, rfl, rfl, rfl, rfl, rfl, rfl⟩
        ⟨rfl, rfl, rfl, rfl⟩ (by simp)
  | false =>
      have hfree : s.kickView Thread.kicking (.thread t) = none := by
        show (s.threads t).kicking = none
        rw [pc]
        rfl
      refine h.of_pending pc ⟨rfl, rfl, rfl, rfl, rfl, rfl, rfl, rfl, rfl, rfl, rfl, rfl⟩ rfl rfl rfl
        (by simp) ?_
      have hacquired := h.pending.acquire (n := n) hfree
      rw [hflag] at hacquired
      show RefCounted _ (fun m => (Function.update s.kickPending n true m).toNat)
      rw [toNat_update]
      exact hacquired

/-- `kick_pending` is cleared by the one who has to. -/
theorem Ledger.reset (h : Ledger s) (pc : s.threads t = old) (hold : old.kicking = some n)
    (hnew : th.kicking = none) (hsame : old.hand = th.hand)
    (hunkicking : th.unkicking = old.unkicking) (hburying : th.burying = old.burying)
    (hmaking : ∀ c pc, th ≠ .making c pc) :
    Ledger ({ s with kickPending := Function.update s.kickPending n false }.goto t th) := by
  have hin : s.kickView Thread.kicking (.thread t) = some n := by
    show (s.threads t).kicking = some n
    rw [pc]
    exact hold
  refine h.of_pending pc ⟨rfl, rfl, rfl, rfl, rfl, rfl, rfl, rfl, rfl, rfl, rfl, rfl⟩ hsame
    hunkicking hburying hmaking ?_
  have hreleased := h.pending.release hin
  have hlast : (s.kickPending n).toNat - 1 = false.toNat :=
    Nat.sub_eq_zero_of_le (Bool.toNat_le _)
  rw [hlast] at hreleased
  show RefCounted _ (fun m => (Function.update s.kickPending n false m).toNat)
  rw [hnew, toNat_update]
  exact hreleased

theorem kickTake_ledger (h : Ledger s)
    (pc : s.threads t = .cancelling (⟨n, .kickTake w⟩ :: below)) (alive : s.refs n ≠ 0) :
    Ledger ((s.addRef n).goto t (.cancelling (⟨n, .kickPush w⟩ :: below))) := by
  have hfree : s.points (.thread t) = none := by
    show (s.threads t).hand = none
    rw [pc]
    rfl
  refine h.take (a := .thread t) (n := n) (.goto pc rfl rfl rfl rfl rfl rfl rfl rfl rfl) ?_ hfree
    alive ?_ rfl rfl
  · exact h.makers.leave (t := t) rfl rfl (by simp) rfl
      (fun _ => id) (fun _ => id)
  · rw [points_goto]
    rfl

theorem Ledger.of_queue (h : Ledger s) (hx : SameBooks s { x with
      kicks := s.kicks, enqueued := s.enqueued })
    (hburying : th.burying = (s.threads t).burying) (hmaking : ∀ c pc, th ≠ .making c pc)
    (hpoints : RefCounted (x.goto t th).points s.refs)
    (hpending : RefCounted ((x.goto t th).kickView Thread.kicking)
      (fun m => (s.kickPending m).toNat))
    (hnodup : ∀ w, (x.kicks w).Nodup) (hunkicks : Unkicks (x.goto t th)) : Ledger (x.goto t th) := by
  have hthreads : x.threads = s.threads := hx.threads
  refine ⟨?_, ?_, ?_, ?_, hnodup, h.buried.of_zero (graves_pass rfl hthreads hburying) hx.deleted ?_,
    hunkicks⟩
  · have hupdate : (x.goto t th).threads = Function.update s.threads t th := by
      rw [← hthreads]
      rfl
    refine h.makers.leave hupdate hx.next hmaking hx.parent (fun m hm => ?_) (fun m hm => ?_)
    · exact (congrFun hx.running m).symm.trans hm
    · exact (congrFun hx.registered m).symm.trans hm
  · show RefCounted _ x.refs
    rw [show x.refs = s.refs from hx.refs]
    exact hpoints
  · intro m hm
    show x.refs m = 0
    rw [show x.refs = s.refs from hx.refs]
    exact h.fresh m ((show x.next = s.next from hx.next) ▸ hm)
  · show RefCounted _ (fun m => (x.kickPending m).toNat)
    rw [show x.kickPending = s.kickPending from hx.kickPending]
    exact hpending
  · intro m
    show (m < x.next ∧ x.refs m = 0) ↔ _
    rw [show x.next = s.next from hx.next, show x.refs = s.refs from hx.refs]

theorem kickPush_ledger (h : Ledger s)
    (pc : s.threads t = .cancelling (⟨n, .kickPush w⟩ :: below)) :
    Ledger ({ s with
      kicks := Function.update s.kicks w (s.kicks w ++ [n]),
      enqueued := Function.update s.enqueued n (s.enqueued n + 1) }.goto t
        (.cancelling (⟨n, .lock⟩ :: below))) := by
  have hout : n ∉ s.kicks w := h.not_queued pc rfl
  have hother : ∀ m, m ≠ n → (m ∈ s.kicks w ++ [n] ↔ m ∈ s.kicks w) := by
    intro m hm
    simp [hm]
  have hin : n ∈ s.kicks w ++ [n] := by simp
  have hhand : s.points (.thread t) = some n := by
    show (s.threads t).hand = some n
    rw [pc]
    rfl
  have hkicking : s.kickView Thread.kicking (.thread t) = some n := by
    show (s.threads t).kicking = some n
    rw [pc]
    rfl
  have hunkicking : (s.threads t).unkicking = none := by
    rw [pc]
    rfl
  refine h.of_queue ⟨rfl, rfl, rfl, rfl, rfl, rfl, rfl, rfl, rfl, rfl, rfl, rfl⟩ (by rw [pc]; rfl)
    (by simp) ?_ ?_ ?_ ?_
  · have hpoints := points_kicks (s := s) (w := w) hother
    rw [if_pos hin] at hpoints
    rw [points_goto]
    refine Eq.subst (motive := fun f => RefCounted (Function.update f _ _) _) hpoints.symm ?_
    rw [Function.update_comm (by simp)]
    exact h.refs.move hhand (if_neg hout)
  · have hview := kickView_kicks (s := s) (w := w) Thread.kicking hother
    rw [if_pos hin] at hview
    rw [kickView_goto]
    refine Eq.subst (motive := fun f => RefCounted (Function.update f _ _) _) hview.symm ?_
    rw [Function.update_comm (by simp)]
    exact h.pending.move hkicking (if_neg hout)
  · intro w'
    by_cases hw : w' = w
    · subst hw
      show (Function.update s.kicks w' (s.kicks w' ++ [n]) w').Nodup
      rw [Function.update_self]
      exact (h.nodup w').append (List.nodup_singleton n) (by simpa using hout)
    · show (Function.update s.kicks w (s.kicks w ++ [n]) w').Nodup
      rw [Function.update_of_ne hw]
      exact h.nodup w'
  · obtain ⟨k, hk, hsum⟩ := h.unkicks
    refine ⟨Function.update k n (k n + 1), ?_, fun m => ?_⟩
    · have hview := kickView_kicks (s := s) (w := w) Thread.unkicking hother
      rw [if_pos hin] at hview
      have hfree : s.kickView Thread.unkicking (.entry w n) = none := if_neg hout
      rw [kickView_goto]
      refine Eq.subst (motive := fun f => RefCounted (Function.update f _ _) _) hview.symm ?_
      rw [show Function.update (Function.update (s.kickView Thread.unkicking) (.entry w n) (some n))
        (.thread t) (Thread.unkicking (.cancelling (⟨n, .lock⟩ :: below))) =
          Function.update (s.kickView Thread.unkicking) (.entry w n) (some n) from
        Function.update_eq_self_iff.mpr (by
          rw [Function.update_of_ne (by simp)]
          exact hunkicking.symm)]
      exact hk.acquire hfree
    · show Function.update s.enqueued n (s.enqueued n + 1) m = s.unkicked m + _
      by_cases hm : m = n
      · subst hm
        rw [Function.update_self, Function.update_self, hsum m]
        omega
      · rw [Function.update_of_ne hm, Function.update_of_ne hm]
        exact hsum m

theorem popKick_ledger (h : Ledger s) {rest : List Nat} (pc : s.threads t = .idle)
    (queue : s.kicks w = n :: rest) :
    Ledger ({ s with kicks := Function.update s.kicks w rest }.goto t (.kicked n .clear)) := by
  have hnodup : (n :: rest).Nodup := queue ▸ h.nodup w
  have hout : n ∉ rest := (List.nodup_cons.mp hnodup).1
  have hother : ∀ m, m ≠ n → (m ∈ rest ↔ m ∈ s.kicks w) := by
    intro m hm
    rw [queue]
    simp [hm]
  have hin : n ∈ s.kicks w := by
    rw [queue]
    exact List.mem_cons_self
  have hidle : ∀ f : Thread → Option Nat, f .idle = none → f (s.threads t) = none := by
    intro f hf
    rw [pc]
    exact hf
  have hview : ∀ f, ({ s with kicks := Function.update s.kicks w rest }.goto t
      (.kicked n .clear)).kickView f =
        Function.update (Function.update (s.kickView f) (.entry w n) none) (.thread t)
          (f (.kicked n .clear)) := by
    intro f
    have hv := kickView_kicks (s := s) (w := w) f hother
    rw [if_neg hout] at hv
    rw [kickView_goto, hv]
  refine h.of_queue ⟨rfl, rfl, rfl, rfl, rfl, rfl, rfl, rfl, rfl, rfl, rfl, rfl⟩ (by rw [pc]; rfl)
    (by simp) ?_ ?_ ?_ ?_
  · have hpoints := points_kicks (s := s) (w := w) hother
    rw [if_neg hout] at hpoints
    rw [points_goto, hpoints]
    have hentry : s.points (.entry w n) = some n := if_pos hin
    exact h.refs.move hentry (hidle Thread.hand rfl)
  · rw [hview]
    have hentry : s.kickView Thread.kicking (.entry w n) = some n := if_pos hin
    exact h.pending.move hentry (hidle Thread.kicking rfl)
  · intro w'
    by_cases hw : w' = w
    · subst hw
      show (Function.update s.kicks w' rest w').Nodup
      rw [Function.update_self]
      exact (List.nodup_cons.mp hnodup).2
    · show (Function.update s.kicks w rest w').Nodup
      rw [Function.update_of_ne hw]
      exact h.nodup w'
  · obtain ⟨k, hk, hsum⟩ := h.unkicks
    refine ⟨k, ?_, hsum⟩
    rw [hview]
    have hentry : s.kickView Thread.unkicking (.entry w n) = some n := if_pos hin
    exact hk.move hentry (hidle Thread.unkicking rfl)

end Kicks

/-! ## Releases -/

section Releases

variable {build : Build} {s s' : State} {t n : Nat}

/-- The thread that dropped the last reference is the one that deletes the node. -/
theorem Ledger.burying (h : Ledger s) (hburying : (s.threads t).burying = some n) :
    n < s.next ∧ s.refs n = 0 ∧ s.deleted n = 0 := by
  obtain ⟨k, hk, hsum⟩ := h.buried
  have hpos : 0 < k n := hk.pos (h := t) hburying
  have hn := hsum n
  by_cases hzero : n < s.next ∧ s.refs n = 0
  · rw [if_pos hzero] at hn
    exact ⟨hzero.1, hzero.2, by omega⟩
  · rw [if_neg hzero] at hn
    omega

theorem drop_ledger (h : Ledger s) {kick : Bool} (pc : s.threads t = .releasing n (.drop kick)) :
    Ledger ({ s with
      refs := Function.update s.refs n (s.refs n - 1),
      unkicked := Function.update s.unkicked n (s.unkicked n + kick.toNat) }.goto t
        (if s.refs n = 1 then .releasing n .unlink else .idle)) := by
  have hhand : s.points (.thread t) = some n := by
    show (s.threads t).hand = some n
    rw [pc]
    rfl
  have hrefs := h.refs_ne hhand
  have hlt := h.lt hrefs
  generalize hth : (if s.refs n = 1 then Thread.releasing n .unlink else .idle) = th
  have hnone : th.hand = none ∧ th.kicking = none ∧ th.unkicking = none ∧
      ∀ c pc, th ≠ .making c pc := by
    rw [← hth]
    split <;> exact ⟨rfl, rfl, rfl, by simp⟩
  obtain ⟨hnohand, hnokick, hnounkick, hmaking⟩ := hnone
  refine ⟨?_, ?_, ?_, ?_, h.nodup, ?_, ?_⟩
  · exact h.makers.leave (t := t) rfl rfl hmaking rfl (fun _ => id) (fun _ => id)
  · rw [points_goto, hnohand]
    exact h.refs.release hhand
  · intro m hm
    show Function.update s.refs n (s.refs n - 1) m = 0
    have hle : s.next ≤ m := hm
    rw [Function.update_of_ne (by omega)]
    exact h.fresh m hle
  · rw [kickView_goto, hnokick]
    have hfree : s.kickView Thread.kicking (.thread t) = none := by
      show (s.threads t).kicking = none
      rw [pc]
      rfl
    have hsame : Function.update (s.kickView Thread.kicking) (.thread t) none =
        s.kickView Thread.kicking := Function.update_eq_self_iff.mpr hfree.symm
    exact hsame.symm ▸ h.pending
  · obtain ⟨k, hk, hsum⟩ := h.buried
    have hgrave : s.graves t = none := by
      show (s.threads t).burying = none
      rw [pc]
      rfl
    have hbefore : k n + s.deleted n = 0 := by
      rw [hsum n]
      exact if_neg fun hc => hrefs hc.2
    by_cases hone : s.refs n = 1
    · rw [if_pos hone] at hth
      subst hth
      refine ⟨Function.update k n (k n + 1), ?_, fun m => ?_⟩
      · rw [graves_goto]
        exact hk.acquire hgrave
      · show Function.update k n (k n + 1) m + s.deleted m =
          if m < s.next ∧ Function.update s.refs n (s.refs n - 1) m = 0 then 1 else 0
        by_cases hm : m = n
        · subst hm
          rw [Function.update_self, Function.update_self, if_pos ⟨hlt, by omega⟩]
          omega
        · rw [Function.update_of_ne hm, Function.update_of_ne hm]
          exact hsum m
    · rw [if_neg hone] at hth
      subst hth
      refine ⟨k, ?_, fun m => ?_⟩
      · rw [graves_goto]
        have hsame : Function.update s.graves t none = s.graves :=
          Function.update_eq_self_iff.mpr hgrave.symm
        exact hsame.symm ▸ hk
      · show k m + s.deleted m =
          if m < s.next ∧ Function.update s.refs n (s.refs n - 1) m = 0 then 1 else 0
        by_cases hm : m = n
        · subst hm
          rw [Function.update_self, if_neg fun hc => by omega]
          exact hbefore
        · rw [Function.update_of_ne hm]
          exact hsum m
  · obtain ⟨k, hk, hsum⟩ := h.unkicks
    cases kick with
    | true =>
        have hin : s.kickView Thread.unkicking (.thread t) = some n := by
          show (s.threads t).unkicking = some n
          rw [pc]
          rfl
        have hpos := hk.pos hin
        refine ⟨Function.update k n (k n - 1), ?_, fun m => ?_⟩
        · rw [kickView_goto, hnounkick]
          exact hk.release hin
        · show s.enqueued m = Function.update s.unkicked n (s.unkicked n + 1) m + _
          by_cases hm : m = n
          · subst hm
            rw [Function.update_self, Function.update_self, hsum m]
            omega
          · rw [Function.update_of_ne hm, Function.update_of_ne hm]
            exact hsum m
    | false =>
        have hfree : s.kickView Thread.unkicking (.thread t) = none := by
          show (s.threads t).unkicking = none
          rw [pc]
          rfl
        refine ⟨k, ?_, fun m => ?_⟩
        · rw [kickView_goto, hnounkick]
          have hsame : Function.update (s.kickView Thread.unkicking) (.thread t) none =
              s.kickView Thread.unkicking := Function.update_eq_self_iff.mpr hfree.symm
          exact hsame.symm ▸ hk
        · show s.enqueued m = Function.update s.unkicked n (s.unkicked n + 0) m + k m
          rw [Nat.add_zero, Function.update_eq_self]
          exact hsum m

/-- A child that is deleted leaves its reference to the parent behind. -/
theorem free_ledger (h : Ledger s) (pc : s.threads t = .releasing n .free) :
    Ledger ({ s with deleted := Function.update s.deleted n (s.deleted n + 1) }.goto t
      (s.behindFree n)) := by
  have hgrave : s.graves t = some n := by
    show (s.threads t).burying = some n
    rw [pc]
    rfl
  obtain ⟨-, -, hundeleted⟩ := h.burying hgrave
  generalize hth : s.behindFree n = th
  have hnone : th.hand = s.parent n ∧ th.kicking = none ∧ th.unkicking = none ∧
      th.burying = none ∧ ∀ c pc, th ≠ .making c pc := by
    rw [← hth]
    unfold State.behindFree
    cases s.parent n <;> exact ⟨rfl, rfl, rfl, rfl, by simp⟩
  obtain ⟨hhand, hnokick, hnounkick, hnobury, hmaking⟩ := hnone
  have hfree : ∀ f : Thread → Option Nat, f (.releasing n .free) = none →
      f (s.threads t) = none := by
    intro f hf
    rw [pc]
    exact hf
  refine ⟨?_, ?_, h.fresh, ?_, h.nodup, ?_, ?_⟩
  · exact h.makers.leave (t := t) rfl rfl hmaking rfl (fun _ => id) (fun _ => id)
  · rw [points_goto, points_deleted, hhand]
    have hchild : s.points (.child n) = s.parent n := if_pos hundeleted
    have hfree' : s.points (.thread t) = none := hfree Thread.hand rfl
    cases hp : s.parent n with
    | none =>
        rw [hp] at hchild
        have hinner : Function.update s.points (.child n) none = s.points :=
          Function.update_eq_self_iff.mpr hchild.symm
        have hsame : Function.update s.points (.thread t) none = s.points :=
          Function.update_eq_self_iff.mpr hfree'.symm
        rw [hinner, hsame]
        exact h.refs
    | some p =>
        rw [hp] at hchild
        exact h.refs.move hchild hfree'
  · rw [kickView_goto, hnokick]
    have hsame : Function.update (s.kickView Thread.kicking) (.thread t) none =
        s.kickView Thread.kicking :=
      Function.update_eq_self_iff.mpr (hfree Thread.kicking rfl).symm
    exact hsame.symm ▸ h.pending
  · obtain ⟨k, hk, hsum⟩ := h.buried
    have hpos := hk.pos hgrave
    refine ⟨Function.update k n (k n - 1), ?_, fun m => ?_⟩
    · rw [graves_goto, hnobury]
      exact hk.release hgrave
    · show _ + Function.update s.deleted n (s.deleted n + 1) m = if m < s.next ∧ s.refs m = 0
        then 1 else 0
      rw [← hsum m]
      by_cases hm : m = n
      · subst hm
        rw [Function.update_self, Function.update_self]
        omega
      · rw [Function.update_of_ne hm, Function.update_of_ne hm]
  · obtain ⟨k, hk, hsum⟩ := h.unkicks
    refine ⟨k, ?_, hsum⟩
    rw [kickView_goto, hnounkick]
    have hsame : Function.update (s.kickView Thread.unkicking) (.thread t) none =
        s.kickView Thread.unkicking :=
      Function.update_eq_self_iff.mpr (hfree Thread.unkicking rfl).symm
    exact hsame.symm ▸ hk

end Releases

end Uvent.Tasks.CancelTree
