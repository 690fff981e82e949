import Uvent.Sync.CallSeats
import Uvent.Sync.SemaphoreWakes

/-!
# Closed channels and events that are set

What a closed channel and a manual-reset event that is set give, they give to everybody:
`close` and `set` wake all waiters of a list.  Coroutines that make any calls, `select` and
`select_recv` among them: as long as a `close` or a `set` has not woken its list yet, it is
still to do so, and behind it nobody waits that has looked before.
-/

namespace Uvent.Sync.Suspension

variable {Λ : Type} {s s' : State Λ} {l : Λ}

def State.Unseen (s : State Λ) (l : Λ) : Prop :=
  ∀ n ∈ s.lists l, (s.coros n.coro).winner = .none →
    ¬(s.coros n.coro).phase.sees false n.index

theorem State.Unseen.of_nil (h : s.lists l = []) : s.Unseen l := by
  intro n hn
  rw [h] at hn
  exact absurd hn List.not_mem_nil

/-- Nodes leave the list, and wakers give winners to coroutines. -/
theorem State.Unseen.sub (h : s.Unseen l) (hlists : (s'.lists l).Sublist (s.lists l))
    (hcoros : ∀ u, (s'.coros u).winner = .none → s'.coros u = s.coros u) : s'.Unseen l := by
  intro n hn hnone
  have hsame := hcoros _ hnone
  rw [hsame] at hnone ⊢
  exact h n (hlists.subset hn) hnone

theorem Inv.unseen_of_one {t : Nat} {c' : Coro Λ} (hinv : Inv s) (h : s.Unseen l)
    (hcoros : s'.coros = Function.update s.coros t c') (hlists : s'.lists = s.lists)
    (hown : ∀ j, (s.coros t).phase.place j = some (.listed l) → c'.winner = .none →
      c'.phase.sees false j → (s.coros t).winner = .none ∧ (s.coros t).phase.sees false j) :
    s'.Unseen l := by
  intro n hn hnone hsees
  rw [hlists] at hn
  rw [hcoros] at hnone hsees
  by_cases ht : n.coro = t
  · subst ht
    rw [Function.update_self] at hnone hsees
    obtain ⟨hlive, hsaw⟩ := hown n.index (hinv.place_of_mem hn) hnone hsees
    exact h n hn hlive hsaw
  · rw [Function.update_of_ne ht] at hnone hsees
    exact h n hn hnone hsees

theorem Inv.unseen_shifts {t : Nat} {c' : Coro Λ} (hinv : Inv s) (h : s.Unseen l)
    (hshifts : s.Shifts s' t c') : s'.Unseen l := by
  obtain ⟨kept, joined, heq, hsub, hjoined⟩ := hshifts.lists l
  intro n hn hnone hsees
  rw [hshifts.coros] at hnone hsees
  rw [heq] at hn
  obtain hkept | hnew := List.mem_append.mp hn
  · have hmem := hsub.subset hkept
    by_cases ht : n.coro = t
    · subst ht
      rw [Function.update_self] at hnone hsees
      have hlive : (s.coros n.coro).winner = .none := by
        obtain hsame | ⟨hold, -⟩ := hshifts.coro.winner
        · rw [← hsame, hnone]
        · exact hold
      refine h n hmem hlive ?_
      obtain ⟨hphase, -⟩ | hadvances := hshifts.coro.moves
      · rwa [hphase] at hsees
      · refine hadvances.sees hnone n.index ?_ hsees
        rw [hinv.place_of_mem hmem]
        nofun
    · rw [Function.update_of_ne ht] at hnone hsees
      exact h n hmem hnone hsees
  · obtain ⟨rfl, -, w, hlook⟩ := hjoined n hnew
    rw [Function.update_self, hlook] at hsees
    obtain hlt | ⟨hfalse, -⟩ := hsees
    · exact Nat.lt_irrefl _ hlt
    · cases hfalse

variable [DecidableEq Λ]

theorem State.unseen_popFire (h : s.Unseen l) (l' : Λ) : (s.popFire l').2.Unseen l := by
  cases hlist : s.lists l' with
  | nil =>
    rw [State.popFire_nil hlist]
    exact h
  | cons n nodes =>
    have hsub : ((s.setList l' nodes).lists l).Sublist (s.lists l) := by
      by_cases hl : l = l'
      · subst hl
        rw [State.setList_lists, hlist]
        exact List.sublist_cons_self n nodes
      · change (Function.update s.lists l' nodes l).Sublist _
        rw [Function.update_of_ne hl]
    by_cases hlive : (s.coros n.coro).winner = .none
    · rw [State.popFire_live hlist hlive]
      refine h.sub hsub fun u hu => ?_
      exact (State.fired_live (s := s.setList l' nodes) hu).2
    · rw [State.popFire_dead hlist hlive]
      exact h.sub hsub fun _ _ => rfl

theorem State.unseen_wakeLoop (h : s.Unseen l) (l' : Λ) (fuel count : Nat) :
    (State.wakeLoop l' fuel count s).Unseen l := by
  induction fuel generalizing count s with
  | zero => exact h
  | succ fuel ih =>
    cases count with
    | zero => exact h
    | succ count =>
      rw [State.wakeLoop_succ]
      exact ih (State.unseen_popFire h l') _

end Uvent.Sync.Suspension

namespace Uvent.Sync.Primitives

open Uvent.Sync.Suspension

variable {α : Type}

/-- An operation on the list is ready for everybody: the channel is closed, or the
manual-reset event is set. -/
def Words.latched (w : Words α) : ListId → Bool
  | .recv c => (w.channels c).closed
  | .send c => (w.channels c).closed && ((w.channels c).queue.freed c).isSome
  | .event e => (w.events e).manual && (w.events e).isSet
  | .sem _ => false

def Pc.sweeps (l : ListId) : Pc α → Prop
  | .waking _ todo _ _ => (l, none) ∈ todo
  | _ => False

/-- Somebody is still to wake list `l` when it is latched, or nobody has looked in vain. -/
def State.Swept (s : State α) (l : ListId) : Prop :=
  s.words.latched l = true → (∃ u, (s.pcs u).sweeps l) ∨ s.waits.Unseen l

/-! ### What latches a list -/

section Latched

variable {w w' : Words α} {l : ListId}

theorem latched_setQueue {c : Nat} {q : Queue (Item α)}
    (hfreed : q.freed c = (w.channels c).queue.freed c) :
    (w.setQueue c q).latched l = w.latched l := by
  cases l with
  | recv d | send d =>
    rw [Words.latched, Words.latched]
    by_cases hd : d = c
    · subst hd
      rw [Words.setQueue_self]
      try rw [hfreed]
    · rw [Words.setQueue_of_ne q hd]
  | event | sem => rfl

theorem latched_setCount (m : Nat) (x : Int) : (w.setCount m x).latched l = w.latched l := by
  cases l <;> rfl

theorem latched_of_clear {e : Nat} (h : (w.setEvent e false).latched l = true) :
    w.latched l = true := by
  cases l with
  | event f =>
    rw [Words.latched] at h ⊢
    by_cases he : f = e
    · subst he
      rw [Words.setEvent_self, Bool.and_false] at h
      cases h
    · rwa [Words.setEvent_of_ne false he] at h
  | recv | send | sem => exact h

theorem latched_of_touches {op : Op α} (h : op.Touches w w') (hlatched : w'.latched l = true) :
    w.latched l = true := by
  cases h with
  | nothing => exact hlatched
  | queue _ c q hfreed => rwa [latched_setQueue hfreed] at hlatched
  | consume e _ _ => exact latched_of_clear hlatched
  | acquire m x => rwa [latched_setCount] at hlatched

/-- `set` latches the list of its event, if that is a manual-reset event. -/
theorem latched_of_set {e : Nat} (h : (w.setEvent e true).latched l = true) :
    w.latched l = true ∨ l = .event e ∧ (w.events e).manual = true := by
  cases l with
  | event f =>
    rw [Words.latched] at h ⊢
    by_cases he : f = e
    · subst he
      rw [Words.setEvent_self, Bool.and_true] at h
      exact .inr ⟨rfl, h⟩
    · rw [Words.setEvent_of_ne true he] at h
      exact .inl h
  | recv | send | sem => exact .inl h

/-- `close` latches the lists of its channel. -/
theorem latched_of_close {c : Nat} (h : (w.close c).latched l = true) :
    w.latched l = true ∨ l = .recv c ∨ (w.channels c).queue.freed c = some l := by
  cases l with
  | recv d =>
    by_cases hd : d = c
    · exact .inr (.inl (hd ▸ rfl))
    · rw [Words.latched, Words.close_of_ne hd] at h
      exact .inl h
  | send d =>
    rw [Words.latched] at h
    by_cases hd : d = c
    · subst hd
      rw [Words.close_self, Bool.true_and] at h
      obtain ⟨l, hl⟩ := Option.isSome_iff_exists.mp h
      obtain rfl := Words.of_freed hl
      exact .inr (.inr hl)
    · rw [Words.close_of_ne hd] at h
      exact .inl h
  | event | sem => exact .inl h

/-- The check of `attach` lets nobody wait at a latched list. -/
theorem not_latched_of_refuses (h : w.Refuses l) : w.latched l = false := by
  cases l with
  | recv c => exact h
  | send c => rw [Words.latched, show (w.channels c).closed = false from h, Bool.false_and]
  | event e => rw [Words.latched, show (w.events e).isSet = false from h, Bool.and_false]
  | sem m => rfl

end Latched

/-! ### The steps -/

namespace State.Swept

variable {s s' : State α} {t : Nat} {l : ListId}

theorem goes (h : s.Swept l) {pc : Pc α} (hwaits : s'.waits = s.waits)
    (hpcs : s'.pcs = Function.update s.pcs t pc)
    (hwords : s'.words.latched l = true → s.words.latched l = true)
    (hpc : (s.pcs t).sweeps l → pc.sweeps l) : s'.Swept l := by
  intro hlatched
  obtain ⟨u, hu⟩ | hunseen := h (hwords hlatched)
  · refine .inl ⟨u, ?_⟩
    rw [hpcs]
    by_cases hut : u = t
    · subst hut
      rw [Function.update_self]
      exact hpc hu
    · rwa [Function.update_of_ne hut]
  · rw [← hwaits] at hunseen
    exact .inr hunseen

theorem sweeping {pc : Pc α} (hpcs : s'.pcs = Function.update s.pcs t pc) (hpc : pc.sweeps l) :
    s'.Swept l := by
  intro _
  refine .inl ⟨t, ?_⟩
  rwa [hpcs, Function.update_self]

theorem within (h : s.Swept l) (hpcs : s'.pcs = s.pcs) (hwords : s'.words = s.words)
    (hwaits : s.waits.Unseen l → s'.waits.Unseen l) : s'.Swept l := by
  intro hlatched
  rw [hwords] at hlatched
  rw [hpcs]
  exact (h hlatched).imp id hwaits

theorem apart (h : s.Swept l) {pc pc' : Pc α} (hpc : s.pcs t = pc)
    (hnot : ∀ c todo locked a, pc ≠ .waking c todo locked a) (hwaits : s'.waits = s.waits)
    (hpcs : s'.pcs = Function.update s.pcs t pc')
    (hwords : s'.words.latched l = true → s.words.latched l = true) : s'.Swept l := by
  refine h.goes hwaits hpcs hwords fun hsweeps => ?_
  rw [hpc] at hsweeps
  cases pc with
  | waking c todo locked a => exact absurd rfl (hnot c todo locked a)
  | idle | trying | draining | pausing | waiting | direct => exact hsweeps.elim

theorem pause (h : s.Swept l) (hseated : Seated s) {c : Ctx α} {w : Wait ListId}
    (hpc : s.pcs t = .pausing c w) (hphase : (s.waits.coros t).phase = .running) :
    State.Swept { s.setPc t (.waiting c w .first) with
      waits := s.waits.set t ((s.waits.coros t).start w) } l := by
  have hgone : (s.setPc t (.waiting c w .first)).Swept l := h.apart hpc nofun rfl rfl id
  refine hgone.within rfl rfl fun hunseen => ?_
  refine hseated.inv.unseen_of_one hunseen rfl rfl fun j hj => ?_
  rw [hphase] at hj
  cases hj

theorem check (h : s.Swept l) (hseated : Seated s) {w : Wait ListId}
    (hphase : (s.waits.coros t).phase = .check w) :
    State.Swept { s with waits := s.waits.set t (if (s.waits.coros t).requested
      then (s.waits.coros t).ownCancel
      else { s.waits.coros t with phase := w.attachFrom 0 }) } l := by
  refine h.within rfl rfl fun hunseen => hseated.inv.unseen_of_one hunseen rfl rfl fun j hj => ?_
  rw [hphase] at hj
  cases hj

theorem inner (h : s.Swept l) (hseated : Seated s) {waits : Suspension.State ListId}
    (hinner : Inner s.waits waits) : State.Swept { s with waits := waits } l := by
  obtain ⟨u, c', hshifts⟩ := hseated.inv.shifts hinner
  exact h.within rfl rfl fun hunseen => hseated.inv.unseen_shifts hunseen hshifts

/-- A coroutine has seen every operation that it has attached before this one. -/
theorem sees_of_look {w : Wait ListId} {j k : Nat} (hplace : (Phase.look w k).place j ≠ none) :
    (Phase.look w k).sees false j ∨ j = k := by
  have hle : j ≤ k := by
    by_contra hlt
    exact hplace (if_neg hlt)
  rcases Nat.lt_or_eq_of_le hle with hlt | heq
  · exact .inl (.inl hlt)
  · exact .inr heq

theorem looks (h : s.Swept l) (hseated : Seated s) {c : Ctx α} {w : Wait ListId} {k : Nat}
    {p : CheckPc} {pc : Pc α} {b : Bool} (hpc : s.pcs t = .waiting c w p)
    (hphase : (s.waits.coros t).phase = .look w k)
    (hwait : b = true → w.places[k]? = some (.listed l) → s.words.latched l = false) :
    State.Swept { s.setPc t pc with waits := s.waits.look t w k b } l := by
  have hgone : (s.setPc t pc).Swept l := h.apart hpc nofun rfl rfl id
  intro hlatched
  refine (hgone hlatched).imp id fun hunseen => ?_
  refine hseated.inv.unseen_of_one (t := t) hunseen rfl rfl fun j hj hnone hsees => ?_
  have hw : w.places[j]? = some (.listed l) := by
    rw [hphase] at hj
    exact Phase.Fits.place (p := .look w k) rfl hj
  refine ⟨hnone, ?_⟩
  rw [hphase] at hj ⊢
  cases b with
  | true =>
    obtain hsaw | rfl := sees_of_look (by rw [hj]; nofun)
    · exact hsaw
    · exact absurd ((hwait rfl hw).symm.trans hlatched) nofun
  | false =>
    -- it withdraws, and has seen nothing
    cases w with
    | op => exact hsees.elim
    | select => exact hsees.elim

theorem load (h : s.Swept l) (hseated : Seated s) {c : Ctx α} {w : Wait ListId} {k : Nat}
    {l' : ListId} {p : CheckPc} (hpc : s.pcs t = .waiting c w p)
    (hphase : (s.waits.coros t).phase = .look w k) (hplace : w.places[k]? = some (.listed l'))
    (enqFirst : Bool) : (s.load t c w k l' p enqFirst).Swept l := by
  obtain ⟨p', hload⟩ | ⟨b, hcheck, hload⟩ := s.load_answers t c w k l' p enqFirst <;> rw [hload]
  · exact h.apart hpc nofun rfl rfl id
  · refine h.looks hseated hpc hphase fun hb hl => ?_
    obtain rfl : l' = l := by
      have heq := hplace.symm.trans hl
      cases heq
      rfl
    subst hb
    exact not_latched_of_refuses (refuses_of_checkStep hcheck)

theorem peek (h : s.Swept l) {c : Ctx α} {l' : ListId} {count : Option Nat}
    {rest : List (ListId × Option Nat)} {a : Answer α}
    (hpc : s.pcs t = .waking c ((l', count) :: rest) false a) :
    (s.setPc t (if s.waits.lists l' = [] then .waking c rest false a
      else .waking c ((l', count) :: rest) true a)).Swept l := by
  by_cases hempty : s.waits.lists l = []
  · exact fun _ => .inr (.of_nil hempty)
  · refine h.goes rfl rfl id fun hsweeps => ?_
    rw [hpc] at hsweeps
    split
    · rename_i hl
      obtain heq | hrest := List.mem_cons.mp hsweeps
      · cases heq
        exact absurd hl hempty
      · exact hrest
    · exact hsweeps

theorem wake (h : s.Swept l) {c : Ctx α} {l' : ListId} {count : Option Nat}
    {rest : List (ListId × Option Nat)} {a : Answer α}
    (hpc : s.pcs t = .waking c ((l', count) :: rest) true a) :
    State.Swept { s.setPc t (.waking c rest false a) with
      waits := s.waits.wake l' (count.getD (s.waits.lists l').length) } l := by
  by_cases hall : l' = l ∧ count = none
  · obtain ⟨rfl, rfl⟩ := hall
    exact fun _ => .inr (.of_nil (State.wakeLoop_all le_rfl le_rfl))
  · have hgone : (s.setPc t (.waking c rest false a)).Swept l := by
      refine h.goes rfl rfl id fun hsweeps => ?_
      rw [hpc] at hsweeps
      obtain heq | hrest := List.mem_cons.mp hsweeps
      · cases heq
        exact absurd ⟨rfl, rfl⟩ hall
      · exact hrest
    exact hgone.within rfl rfl fun hunseen => State.unseen_wakeLoop hunseen l' _ _

theorem direct (h : s.Swept l) {c : Ctx α} (hpc : s.pcs t = .direct c) :
    (s.direct t c).Swept l := by
  have hdirected := s.directed t c
  generalize s.direct t c = s' at hdirected
  cases hdirected with
  | nothing => exact h.apart hpc nofun rfl rfl id
  | close ch _ _ =>
    by_cases hlatched : (s.words.close ch).latched l = true
    · obtain hold | rfl | hfreed := latched_of_close hlatched
      · exact h.apart hpc nofun rfl rfl fun _ => hold
      · exact sweeping rfl List.mem_cons_self
      · refine sweeping rfl (List.mem_cons_of_mem _ ?_)
        rw [hfreed]
        exact List.mem_singleton_self _
    · exact fun hnow => absurd hnow hlatched
  | set e _ _ =>
    by_cases hlatched : (s.words.setEvent e true).latched l = true
    · obtain hold | ⟨rfl, hmanual⟩ := latched_of_set hlatched
      · exact h.apart hpc nofun rfl rfl fun _ => hold
      · refine sweeping rfl ?_
        rw [if_pos hmanual]
        exact List.mem_singleton_self _
    · exact fun hnow => absurd hnow hlatched
  | reset e _ _ => exact h.apart hpc nofun rfl rfl latched_of_clear
  | release m k _ => exact h.apart hpc nofun rfl rfl fun hl => latched_setCount m _ ▸ hl

theorem step {calls : Call α → Prop} {who : Option Nat} (h : s.Swept l) (hseated : Seated s)
    (hstep : Step calls s who s') : s'.Swept l := by
  cases hstep with
  | begin t call start hpc _ _ => exact h.apart hpc nofun rfl rfl id
  | attempt t c k op p spurious hpc _ =>
    have hattempted := s.attempted t c k op p spurious
    generalize s.attempt t c k op p spurious = s' at hattempted
    cases hattempted with
    | more | fail | done => exact h.apart hpc nofun rfl rfl (latched_of_touches (op.touches ..))
  | drain t c cs k p alive enqFirst hpc _ => exact h.apart hpc nofun rfl rfl id
  | pause t c w hpc hphase => exact h.pause hseated hpc hphase
  | check t c w p _ hphase => exact h.check hseated hphase
  | inner waits hinner => exact h.inner hseated hinner
  | load t c w k l' p enqFirst hpc hphase hplace => exact h.load hseated hpc hphase hplace enqFirst
  | loadFired t c w k p hpc hphase hplace =>
    have hself : s.setPc t (.waiting c w p) = s := by
      rw [State.setPc, ← hpc, Function.update_eq_self]
    have hlooks : State.Swept { s.setPc t (.waiting c w p) with
        waits := s.waits.look t w k (!((s.waits.coros t).sleepers k).timer.fired) } l :=
      h.looks hseated hpc hphase fun _ hl => absurd (hplace.symm.trans hl) nofun
    rwa [hself] at hlooks
  | answer t c w p start hpc _ => exact h.apart hpc nofun rfl rfl id
  | peek t c l' count rest a hpc => exact h.peek hpc
  | wake t c l' count rest a hpc => exact h.wake hpc
  | direct t c hpc => exact h.direct hpc
  | finalize t c a k hpc hphase _ =>
    refine h.within rfl rfl fun hunseen => hseated.inv.unseen_of_one hunseen rfl rfl fun j hj => ?_
    rw [hphase] at hj
    cases hj
  | finish t c a hpc _ =>
    refine h.goes rfl rfl id fun hsweeps => ?_
    rw [hpc] at hsweeps
    exact absurd hsweeps List.not_mem_nil

end State.Swept

def State.ParkedAt (s : State α) (t : Nat) (l : ListId) : Prop :=
  ∃ (w : Wait ListId) (k : Nat), (s.waits.coros t).phase = .suspended w ∧
    w.places[k]? = some (.listed l)

theorem swept_of_runs {calls : Call α → Prop} {ok : State α → Nat → Prop} {w : Words α}
    {s : State α} (h : Runs calls ok w s) (l : ListId) : s.Swept l := by
  induction h with
  | start => exact fun _ => .inr (.of_nil rfl)
  | step hs hstep _ ih => exact ih.step (seated_of_runs hs) hstep

/-- When no coroutine runs or is scheduled, none waits at a closed channel or at a
manual-reset event that is set, whatever else it waits for. -/
theorem nobody_parked_of_latched {calls : Call α → Prop} {ok : State α → Nat → Prop}
    {w : Words α} {s : State α} (h : Runs calls ok w s) (hquiet : s.Quiet) {l : ListId}
    (hlatched : s.words.latched l = true) (t : Nat) : ¬s.ParkedAt t l := by
  have hseated := seated_of_runs h
  rintro ⟨w', k, hphase, hplace⟩
  obtain ⟨u, hu⟩ | hunseen := swept_of_runs h l hlatched
  · obtain hpc | ⟨c, w, p, hpc, -⟩ := (hquiet u).1 <;> rw [hpc] at hu <;> exact hu
  · obtain ⟨hopen, -⟩ := (hseated.inv.coros t).at_kind
      (show (s.waits.coros t).phase.kind = .parked by rw [hphase]; rfl)
    have hwinner := hquiet.winner hseated hphase
    have hlink : s.waits.node t k ∈ s.waits.lists l := by
      refine hopen.linked ?_ hwinner (hquiet t).2.2.1 k l ?_
      · rw [hphase]
        rfl
      · rw [hphase]
        exact hplace
    refine hunseen _ hlink hwinner ?_
    change (s.waits.coros t).phase.sees _ _
    rw [hphase]
    trivial

/-- Coroutine 1 waits for the manual-reset event 0, is woken by the `set` of coroutine 0, and
passes. -/
theorem passed_of_set : ∃ s : State Unit, s.words.latched (.event 0) = true ∧
    .returned 1 1 (.plain (.wait 0)) (.done 0 .passed) ∈ s.log ∧ ∀ t, ¬s.ParkedAt t (.event 0) := by
  let w : Words Unit := ⟨fun _ => ⟨.ring 2 ⟨.new, fun _ => .ret .none⟩, false⟩,
    fun _ => ⟨true, false⟩, fun _ => 1⟩
  have h₀ : Runs (fun _ => True) (fun _ _ => True) w (.new w) := .start
  have h₁ := h₀.free (.begin 1 (.plain (.wait 0)) 0 rfl ⟨nofun, trivial⟩ trivial)
  have h₂ := h₁.free (.attempt 1 _ 0 (.wait 0) .consume false rfl rfl)
  have h₃ := h₂.free (.pause 1 _ _ rfl rfl)
  have h₄ := h₃.free (.check 1 _ _ .first rfl rfl)
  have h₅ := h₄.free (.inner _ (.attach 1 _ 0 rfl))
  have h₆ := h₅.free (.load 1 _ _ 0 (.event 0) .first true rfl rfl rfl)
  have h₇ := h₆.free (.inner _ (.arm 1 _ rfl))
  have h₈ := h₇.free (.begin 0 (.set 0) 0 rfl trivial trivial)
  have h₉ := h₈.free (.direct 0 _ rfl)
  have h₁₀ := h₉.free (.peek 0 _ (.event 0) none [] .finished rfl)
  have h₁₁ := h₁₀.free (.wake 0 _ (.event 0) none [] .finished rfl)
  have h₁₂ := h₁₁.free (.finish 0 _ _ rfl fun _ => rfl)
  have h₁₃ := h₁₂.free (.inner _ (.resume 1 _ rfl Nat.one_pos))
  have h₁₄ := h₁₃.free (.inner _ (.resumed 1 _ rfl))
  have h₁₅ := h₁₄.free (.answer 1 _ _ .first 0 rfl rfl)
  have h₁₆ := h₁₅.free (.attempt 1 _ 0 (.wait 0) .consume false rfl rfl)
  have h₁₇ := h₁₆.free (.finish 1 _ _ rfl fun _ => rfl)
  refine ⟨_, rfl, .head _, nobody_parked_of_latched h₁₇ (fun t => ?_) rfl⟩
  match t with
  | 0 | 1 | t + 2 => exact ⟨.inl rfl, rfl, rfl, fun _ _ => nofun⟩

end Uvent.Sync.Primitives
