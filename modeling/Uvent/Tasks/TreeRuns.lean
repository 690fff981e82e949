import Uvent.Tasks.TreeWaits

/-!
# Cancellation of a tree

The lists, the locks and the flags stand in every state of a run.  Where no operation is in
progress, every live node below a cancelled one is cancelled, and nobody waits there.
-/

namespace Uvent.Tasks.CancelTree

open Uvent.Lib Uvent.Sync
open Uvent.Net.StateWord (Build)

/-- `request_cancel` was called on the node, or on one above it. -/
def Asked (s : State) (n : Nat) : Prop := ∃ a, s.called a = true ∧ Above s.parent a n

structure Origin (s : State) : Prop where
  requested : ∀ n, s.requested n = true → Asked s n
  stack : ∀ t, ∀ f ∈ (s.threads t).stack, Asked s f.node

structure Tree (s : State) (kids : Nat → List Nat) : Prop where
  lists : Lists s kids
  knowing : Knowing s
  walks : Walks s kids
  origin : Origin s
  waits : Waits s

/-- No coroutine is running or scheduled: no awaiter is on its way to its suspension, and none
that was fired has not been resumed. -/
structure Idle (s : State) : Prop where
  quiet : Quiet s
  suspended : ∀ j, (s.awaiter j).pc = .unused ∨ (s.awaiter j).pc = .parked ∨
    (s.awaiter j).pc = .ended
  unscheduled : ∀ j, (s.awaiter j).fired = true → (s.awaiter j).resumed = true

structure Cancelled (build : Build) (s : State) : Prop where
  listed : ∃ kids : Nat → List Nat,
    (∀ p, Row s.nextSib s.prevSib none (s.firstChild p) (kids p) ∧ (kids p).Nodup) ∧
      ∀ p c, c ∈ kids p ↔ s.parent c = some p ∧ s.linked c = true
  final : ∀ s', Step build s s' → ∀ n, s.requested n = true → s'.requested n = true
  asked : ∀ n, s.requested n = true → Asked s n
  spread : Quiet s → ∀ n m, s.requested n = true → Above s.parent n m → s.deleted m = 0 →
    s.requested m = true
  woken : Idle s → ∀ j, (s.awaiter j).pc = .parked → (s.awaiter j).resumed = false →
    s.requested (s.awaiter j).node = false

section Steps

variable {build : Build} {s s' x : State} {kids : Nat → List Nat} {t n j : Nat}
  {th old : Thread} {f : Frame} {below : List Frame}

theorem Asked.mono (h : Asked s n) (hcalled : ∀ a, s.called a = true → s'.called a = true)
    (hparent : s'.parent = s.parent) : Asked s' n := by
  obtain ⟨a, ha, habove⟩ := h
  exact ⟨a, hcalled a ha, hparent ▸ habove⟩

/-- No call begins, and no flag is set. -/
theorem Origin.of_same (h : Origin s) (hreq : s'.requested = s.requested)
    (hcalled : s'.called = s.called) (hparent : s'.parent = s.parent)
    (hstack : ∀ t, ∀ f ∈ (s'.threads t).stack, ∃ t', ∃ g ∈ (s.threads t').stack,
      g.node = f.node) : Origin s' := by
  have hmono : ∀ n, Asked s n → Asked s' n := by
    intro n hn
    refine hn.mono ?_ hparent
    rw [hcalled]
    exact fun _ => id
  refine ⟨fun n hn => hmono n (h.requested n (hreq ▸ hn)), fun t f hf => ?_⟩
  obtain ⟨t', g, hg, hnode⟩ := hstack t f hf
  rw [← hnode]
  exact hmono _ (h.stack t' g hg)

structure SameTree (s x : State) : Prop where
  links : SameLinks s x
  requested : x.requested = s.requested
  treeLock : x.treeLock = s.treeLock
  called : x.called = s.called
  cancelWaiters : x.cancelWaiters = s.cancelWaiters
  awaiter : x.awaiter = s.awaiter

theorem Tree.pass (h : Tree s kids) (hsame : SameTree s s') (hturns : Turns s s')
    (hstack : ∀ t, (s'.threads t).stack = (s.threads t).stack)
    (hhandle : ∀ i n, s'.handle i = some n → s.handle i = some n ∨ Known s n) : Tree s' kids where
  lists := h.lists.of_same hsame.links hturns
  knowing := by
    refine h.knowing.of_same hsame.links hturns hhandle ?_
    rw [hsame.awaiter]
    exact fun j hj => .inl ⟨hj, rfl⟩
  walks := by
    refine h.walks.keep hstack ?_ hsame.treeLock (fun _ _ _ => rfl) ?_
    · rw [hsame.requested]
      exact fun _ => id
    · rw [hsame.requested]
      exact fun p hp => .inl ⟨hp, fun _ hc => .inl hc⟩
  origin := h.origin.of_same hsame.requested hsame.called hsame.links.parent
    fun t f hf => ⟨t, f, hstack t ▸ hf, rfl⟩
  waits := h.waits.pass hsame.cancelWaiters hsame.awaiter hsame.requested
    fun _ => wakeful_of_stack hstack

theorem Tree.goto (h : Tree s kids) (pc : s.threads t = old) (hsame : SameTree s x)
    (hthreads : x.threads = s.threads) (hnext : x.next = s.next) (hdeleted : x.deleted = s.deleted)
    (hplain : old.Plain th) (hstack : th.stack = old.stack)
    (hhandle : ∀ i n, x.handle i = some n → s.handle i = some n ∨ Known s n) :
    Tree (x.goto t th) kids :=
  h.pass ⟨⟨hsame.links.parent, hsame.links.firstChild, hsame.links.prevSib, hsame.links.nextSib,
      hsame.links.linked⟩, hsame.requested, hsame.treeLock, hsame.called, hsame.cancelWaiters,
      hsame.awaiter⟩
    (.goto pc hthreads hnext hdeleted hplain) (stack_goto pc hthreads hstack) hhandle

theorem Tree.of_walks (h : Tree s kids) (hwalks : Walks s' kids) (hlinks : SameLinks s s')
    (hturns : Turns s s') (hreq : s'.requested = s.requested) (hcalled : s'.called = s.called)
    (hwaiters : s'.cancelWaiters = s.cancelWaiters) (hawaiter : s'.awaiter = s.awaiter)
    (hhandle : s'.handle = s.handle)
    (hstack : ∀ t, ∀ f ∈ (s'.threads t).stack, ∃ t', ∃ g ∈ (s.threads t').stack, g.node = f.node)
    (hwake : ∀ n, Wakeful s n → Wakeful s' n) : Tree s' kids where
  lists := h.lists.of_same hlinks hturns
  knowing := by
    refine h.knowing.of_same hlinks hturns ?_ ?_
    · rw [hhandle]
      exact fun _ _ => .inl
    · rw [hawaiter]
      exact fun j hj => .inl ⟨hj, rfl⟩
  walks := hwalks
  origin := h.origin.of_same hreq hcalled hlinks.parent hstack
  waits := h.waits.pass hwaiters hawaiter hreq hwake

theorem plain_call {stack : List Frame} (hnew : ∀ c pc, th ≠ .making c pc) :
    Thread.Plain (.cancelling stack) th :=
  ⟨fun c pc heq => absurd heq (hnew c pc), fun c p => hnew c _, by simp, by simp⟩

theorem plain_idle (hnew : ∀ c pc, th ≠ .making c pc) : Thread.Plain .idle th :=
  ⟨fun c pc heq => absurd heq (hnew c pc), fun c p => hnew c _, by simp, by simp⟩

/-- Whoever is in the stack behind a step of a thread was in a stack before. -/
theorem stack_nodes {p : Frame → Prop} (hx : x.threads = s.threads)
    (hth : ∀ f ∈ th.stack, p f ∨ ∃ g ∈ (s.threads t).stack, g.node = f.node) (t' : Nat)
    (hf : f ∈ ((x.goto t th).threads t').stack) :
    p f ∨ ∃ t', ∃ g ∈ (s.threads t').stack, g.node = f.node := by
  by_cases ht : t' = t
  · subst ht
    rw [show (x.goto t' th).threads t' = th from Function.update_self ..] at hf
    exact (hth f hf).imp_right fun ⟨g, hg, hnode⟩ => ⟨t', g, hg, hnode⟩
  · rw [show (x.goto t th).threads t' = s.threads t' from hx ▸ Function.update_of_ne ht ..] at hf
    exact .inr ⟨t', f, hf, rfl⟩

theorem Tree.advance (h : Tree s kids) {p p' : Point}
    (pc : s.threads t = .cancelling (⟨n, p⟩ :: below)) (hsame : SameTree s x)
    (hthreads : x.threads = s.threads) (hnext : x.next = s.next) (hdeleted : x.deleted = s.deleted)
    (hhandle : x.handle = s.handle) (hold : p ≠ .exchange) (hwakes : p.wakes = false)
    (hnew : p' ≠ .exchange) (hwalk : ∀ c, p' ≠ .walk c) :
    Tree (x.goto t (.cancelling (⟨n, p'⟩ :: below))) kids := by
  have hstack : (s.threads t).stack = ⟨n, p⟩ :: below := by rw [pc]; rfl
  refine h.of_walks
    (h.walks.advance pc hthreads hsame.requested hsame.treeLock hold hnew hwalk)
    ⟨hsame.links.parent, hsame.links.firstChild, hsame.links.prevSib, hsame.links.nextSib,
      hsame.links.linked⟩
    (.goto pc hthreads hnext hdeleted (plain_call (by simp))) hsame.requested hsame.called
    hsame.cancelWaiters hsame.awaiter hhandle ?_ fun m => wakeful_goto hthreads ?_
  · intro t' f hf
    refine (stack_nodes (p := fun _ => False) hthreads ?_ t' hf).resolve_left id
    intro g hg
    refine .inr ?_
    rw [hstack]
    rcases List.mem_cons.mp hg with rfl | hg
    · exact ⟨_, List.mem_cons_self, rfl⟩
    · exact ⟨g, List.mem_cons_of_mem _ hg, rfl⟩
  · intro f hf hpoint
    rw [hstack] at hf
    rcases List.mem_cons.mp hf with rfl | hf
    · rw [show Point.wakes p = true from hpoint] at hwakes
      cases hwakes
    · exact List.mem_cons_of_mem _ hf

theorem request_tree (h : Tree s kids) (pc : s.threads t = .idle) :
    Tree ({ s with called := Function.update s.called n true }.goto t
      (.cancelling [⟨n, .exchange⟩])) kids := by
  have hcalled : ∀ a, s.called a = true → Function.update s.called n true a = true := by
    intro a ha
    by_cases han : a = n
    · subst han
      exact Function.update_self ..
    · rw [Function.update_of_ne han]
      exact ha
  have hmono : ∀ m, Asked s m → Asked ({ s with called := Function.update s.called n true }.goto t
      (.cancelling [⟨n, .exchange⟩])) m := fun m hm => hm.mono hcalled rfl
  have hturns : Turns s ({ s with called := Function.update s.called n true }.goto t
      (.cancelling [⟨n, .exchange⟩])) := .goto pc rfl rfl rfl (plain_idle (by simp))
  refine ⟨h.lists.of_same ⟨rfl, rfl, rfl, rfl, rfl⟩ hturns,
    h.knowing.of_same ⟨rfl, rfl, rfl, rfl, rfl⟩ hturns (fun _ _ => .inl) (fun j hj => .inl ⟨hj, rfl⟩),
    request_walks h.walks pc rfl rfl rfl, ⟨fun m hm => hmono m (h.origin.requested m hm), ?_⟩,
    h.waits.pass rfl rfl rfl fun m => wakeful_goto rfl ?_⟩
  · intro t' f hf
    have hnew : ∀ g ∈ Thread.stack (.cancelling [⟨n, .exchange⟩]), g.node = n ∨
        ∃ g' ∈ (s.threads t).stack, g'.node = g.node := by
      intro g hg
      obtain rfl := List.mem_singleton.mp hg
      exact .inl rfl
    rcases stack_nodes (p := fun f => f.node = n) rfl hnew t' hf with hnode | ⟨t'', g, hg, hnode⟩
    · rw [hnode]
      exact ⟨n, Function.update_self .., .refl⟩
    · rw [← hnode]
      exact hmono _ (h.origin.stack t'' g hg)
  · intro f hf
    rw [pc] at hf
    cases hf

theorem exchange_tree (h : Tree s kids)
    (pc : s.threads t = .cancelling (⟨n, .exchange⟩ :: below)) :
    Tree ({ s with requested := Function.update s.requested n true }.goto t
      (.cancelling (⟨n, .wakeCheck⟩ :: below))) kids := by
  have hstack : (s.threads t).stack = ⟨n, .exchange⟩ :: below := by rw [pc]; rfl
  have hasked : Asked s n := h.origin.stack t ⟨n, .exchange⟩ (hstack ▸ List.mem_cons_self)
  have hturns : Turns s ({ s with requested := Function.update s.requested n true }.goto t
      (.cancelling (⟨n, .wakeCheck⟩ :: below))) := .goto pc rfl rfl rfl (plain_call (by simp))
  have hmono : ∀ m, Asked s m →
      Asked ({ s with requested := Function.update s.requested n true }.goto t
        (.cancelling (⟨n, .wakeCheck⟩ :: below))) m := fun m hm => hm.mono (fun _ => id) rfl
  refine ⟨h.lists.of_same ⟨rfl, rfl, rfl, rfl, rfl⟩ hturns,
    h.knowing.of_same ⟨rfl, rfl, rfl, rfl, rfl⟩ hturns (fun _ _ => .inl) (fun j hj => .inl ⟨hj, rfl⟩),
    exchange_walks h.walks pc, ⟨?_, ?_⟩, h.waits.of_same rfl rfl ?_⟩
  · intro m hm
    refine hmono m ?_
    by_cases hmn : m = n
    · subst hmn
      exact hasked
    · exact h.origin.requested m ((Function.update_of_ne hmn ..).symm.trans hm)
  · intro t' f hf
    have hnew : ∀ g ∈ Thread.stack (.cancelling (⟨n, .wakeCheck⟩ :: below)), False ∨
        ∃ g' ∈ (s.threads t).stack, g'.node = g.node := by
      intro g hg
      refine .inr ?_
      rw [hstack]
      rcases List.mem_cons.mp hg with heq | hg
      · exact ⟨_, List.mem_cons_self, by rw [heq]⟩
      · exact ⟨g, List.mem_cons_of_mem _ hg, rfl⟩
    obtain ⟨t'', g, hg, hnode⟩ :=
      (stack_nodes (p := fun _ => False) rfl hnew t' hf).resolve_left id
    rw [← hnode]
    exact hmono _ (h.origin.stack t'' g hg)
  · intro j _ _ hreq hbefore
    by_cases hnode : (s.awaiter j).node = n
    · have hself : ({ s with requested := Function.update s.requested n true }.goto t
          (.cancelling (⟨n, .wakeCheck⟩ :: below))).threads t =
            .cancelling (⟨n, .wakeCheck⟩ :: below) := Function.update_self ..
      rw [hnode]
      refine ⟨t, ⟨n, .wakeCheck⟩, ?_, rfl, rfl⟩
      rw [hself]
      exact List.mem_cons_self
    · refine wakeful_goto rfl ?_ (hbefore ((Function.update_of_ne hnode ..).symm.trans hreq))
      intro f hf hpoint
      rw [hstack] at hf
      rcases List.mem_cons.mp hf with rfl | hf
      · cases hpoint
      · exact List.mem_cons_of_mem _ hf

theorem ret_tree (h : Tree s kids) {p : Point}
    (pc : s.threads t = .cancelling (⟨n, p⟩ :: below)) (hwalks : Walks (x.ret t below) kids)
    (hp : p.wakes = false) (hlinks : SameLinks s x) (hreq : x.requested = s.requested)
    (hcalled : x.called = s.called) (hwaiters : x.cancelWaiters = s.cancelWaiters)
    (hawaiter : x.awaiter = s.awaiter) (hhandle : x.handle = s.handle)
    (hthreads : x.threads = s.threads) (hnext : x.next = s.next)
    (hdeleted : x.deleted = s.deleted) : Tree (x.ret t below) kids := by
  have hstack : (s.threads t).stack = ⟨n, p⟩ :: below := by rw [pc]; rfl
  have hchain := h.walks.chain t
  rw [hstack] at hchain
  obtain ⟨th, hret, hlight⟩ := ret_cases x t below
  have hnodes : ∀ f ∈ th.stack, ∃ g ∈ below, g.node = f.node := by
    intro f hf
    have hself : (x.ret t below).threads t = th := by
      rw [hret]
      exact Function.update_self ..
    rw [← hself] at hf
    unfold State.ret at hf
    split at hf
    · rw [show ((x.goto t _).threads t) = _ from Function.update_self ..] at hf
      rcases List.mem_cons.mp hf with rfl | hf
      · exact ⟨_, List.mem_cons_self, rfl⟩
      · exact ⟨f, List.mem_cons_of_mem _ hf, rfl⟩
    · rw [show ((x.goto t _).threads t) = _ from Function.update_self ..] at hf
      cases hf
  rw [hret] at hwalks ⊢
  refine h.of_walks hwalks
    ⟨hlinks.parent, hlinks.firstChild, hlinks.prevSib, hlinks.nextSib, hlinks.linked⟩
    (.goto pc hthreads hnext hdeleted (plain_call hlight.making)) hreq hcalled hwaiters hawaiter
    hhandle ?_ fun m => wakeful_goto hthreads ?_
  · intro t' f hf
    refine (stack_nodes (p := fun _ => False) hthreads ?_ t' hf).resolve_left id
    intro f hf
    obtain ⟨g, hg, hnode⟩ := hnodes f hf
    exact .inr ⟨g, hstack ▸ List.mem_cons_of_mem _ hg, hnode⟩
  · -- neither the call that returns nor a walk looks into a list
    intro f hf hpoint
    rw [hstack] at hf
    rcases List.mem_cons.mp hf with rfl | hf
    · rw [show Point.wakes p = true from hpoint] at hp
      cases hp
    · obtain ⟨c, hc⟩ := hchain.outer hf
      rw [hc] at hpoint
      cases hpoint

theorem unlock_tree (h : Tree s kids)
    (pc : s.threads t = .cancelling (⟨n, .walk none⟩ :: below)) :
    Tree ({ s with treeLock := Function.update s.treeLock n none }.ret t below) kids := by
  have hstack : (s.threads t).stack = ⟨n, .walk none⟩ :: below := by rw [pc]; rfl
  have hin : (⟨n, .walk none⟩ : Frame) ∈ (s.threads t).stack := hstack ▸ List.mem_cons_self
  obtain ⟨hheld, pre, post, hkids, hcur, hpre⟩ := h.walks.locked t _ hin none rfl
  have hdone : ∀ c ∈ kids n, s.requested c = true := by
    have hpost : post = [] := List.head?_eq_none_iff.mp hcur.symm
    rw [show kids n = pre ++ post from hkids, hpost, List.append_nil]
    exact hpre
  refine ret_tree h pc (ret_walks h.walks h.lists pc rfl rfl rfl ?_ (.inr rfl)
    (h.walks.requested t _ hin (by simp)) fun _ => hdone) rfl ⟨rfl, rfl, rfl, rfl, rfl⟩ rfl rfl rfl
    rfl rfl rfl rfl rfl
  intro t' m hm hlock
  have hne : m ≠ n := by
    rintro rfl
    obtain rfl := Option.some.inj (hheld.symm.trans hlock)
    rcases hm rfl with hself | hcontra
    · exact hself rfl
    · cases hcontra
  show Function.update s.treeLock n none m = some t'
  rw [Function.update_of_ne hne]
  exact hlock

theorem lock_tree (h : Tree s kids) (pc : s.threads t = .cancelling (⟨n, .lock⟩ :: below))
    (free : s.treeLock n = none) :
    Tree ({ s with treeLock := Function.update s.treeLock n (some t) }.goto t
      (.cancelling (⟨n, .walk (s.firstChild n)⟩ :: below))) kids := by
  have hstack : (s.threads t).stack = ⟨n, .lock⟩ :: below := by rw [pc]; rfl
  refine h.of_walks (lock_walks h.walks h.lists pc free) ⟨rfl, rfl, rfl, rfl, rfl⟩
    (.goto pc rfl rfl rfl (plain_call (by simp))) rfl rfl rfl rfl rfl ?_
    fun m => wakeful_goto rfl ?_
  · intro t' f hf
    refine (stack_nodes (p := fun _ => False) rfl ?_ t' hf).resolve_left id
    intro g hg
    refine .inr ?_
    rw [hstack]
    rcases List.mem_cons.mp hg with rfl | hg
    · exact ⟨_, List.mem_cons_self, rfl⟩
    · exact ⟨g, List.mem_cons_of_mem _ hg, rfl⟩
  · intro f hf hpoint
    rw [hstack] at hf
    rcases List.mem_cons.mp hf with rfl | hf
    · cases hpoint
    · exact List.mem_cons_of_mem _ hf

/-- The child that a walk comes to was linked under a node that was asked for. -/
theorem visit_tree (h : Tree s kids) {c : Nat}
    (pc : s.threads t = .cancelling (⟨n, .walk (some c)⟩ :: below)) :
    Tree (s.goto t (.cancelling (⟨c, .exchange⟩ :: ⟨n, .walk (some c)⟩ :: below))) kids := by
  have hstack : (s.threads t).stack = ⟨n, .walk (some c)⟩ :: below := by rw [pc]; rfl
  have hin : (⟨n, .walk (some c)⟩ : Frame) ∈ (s.threads t).stack := hstack ▸ List.mem_cons_self
  obtain ⟨-, pre, post, hkids, hcur, -⟩ := h.walks.locked t _ hin (some c) rfl
  have hc : c ∈ kids n := by
    rw [show kids n = pre ++ post from hkids]
    exact List.mem_append_right pre (List.mem_of_mem_head? hcur.symm)
  have hparent := ((h.lists.member n c).mp hc).1
  have hasked : Asked s c := by
    obtain ⟨a, ha, habove⟩ := h.origin.stack t _ hin
    exact ⟨a, ha, .up hparent habove⟩
  have hturns : Turns s
      (s.goto t (.cancelling (⟨c, .exchange⟩ :: ⟨n, .walk (some c)⟩ :: below))) :=
    .goto pc rfl rfl rfl (plain_call (by simp))
  refine ⟨h.lists.of_same ⟨rfl, rfl, rfl, rfl, rfl⟩ hturns,
    h.knowing.of_same ⟨rfl, rfl, rfl, rfl, rfl⟩ hturns (fun _ _ => .inl) (fun j hj => .inl ⟨hj, rfl⟩),
    visit_walks h.walks pc, ⟨h.origin.requested, ?_⟩,
    h.waits.pass rfl rfl rfl fun m => wakeful_goto rfl ?_⟩
  · intro t' f hf
    have hnew : ∀ g ∈ Thread.stack (.cancelling (⟨c, .exchange⟩ :: ⟨n, .walk (some c)⟩ :: below)),
        g.node = c ∨ ∃ g' ∈ (s.threads t).stack, g'.node = g.node := by
      intro g hg
      rcases List.mem_cons.mp hg with rfl | hg
      · exact .inl rfl
      · exact .inr ⟨g, hstack ▸ hg, rfl⟩
    rcases stack_nodes (p := fun f => f.node = c) rfl hnew t' hf with hnode | ⟨t'', g, hg, hnode⟩
    · rw [hnode]
      exact hasked
    · rw [← hnode]
      exact h.origin.stack t'' g hg
  · intro f hf _
    rw [hstack] at hf
    exact List.mem_cons_of_mem _ hf

/-! ### Nodes -/

theorem retain_tree (h : Tree s kids) (hmakers : Makers s) {c p : Nat}
    (pc : s.threads t = .making c (.retain p)) (held : s.Held p) :
    Tree ({ s.addRef p with parent := Function.update s.parent c (some p) }.goto t
      (.making c (.link p))) kids := by
  have horphan := hmakers.orphan t c _ pc rfl
  have hstack : ∀ t', (({ s.addRef p with parent := Function.update s.parent c (some p) }.goto t
      (.making c (.link p))).threads t').stack = (s.threads t').stack := stack_goto pc rfl rfl
  have hmono : ∀ m, Asked s m →
      Asked ({ s.addRef p with parent := Function.update s.parent c (some p) }.goto t
        (.making c (.link p))) m := fun m ⟨a, ha, habove⟩ => ⟨a, ha, habove.link horphan⟩
  refine ⟨retain_lists h.lists h.knowing hmakers pc, retain_knowing h.knowing hmakers pc held,
    h.walks.keep hstack (fun _ => id) rfl (fun _ _ _ => rfl) fun q hq => .inl ⟨hq, fun _ => .inl⟩,
    ⟨fun m hm => hmono m (h.origin.requested m hm), fun t' f hf => ?_⟩,
    h.waits.pass rfl rfl rfl fun _ => wakeful_of_stack hstack⟩
  rw [hstack] at hf
  exact hmono _ (h.origin.stack t' f hf)

/-- A new child is cancelled if its parent is, and nobody waits at it. -/
theorem link_tree (h : Tree s kids) (hmakers : Makers s) {c p : Nat}
    (pc : s.threads t = .making c (.link p)) (free : s.treeLock p = none) :
    Tree ((s.link p c).goto t (.making c (s.behindLink c)))
      (Function.update kids p (c :: kids p)) := by
  have hstack : ∀ t', (((s.link p c).goto t (.making c (s.behindLink c))).threads t').stack =
      (s.threads t').stack := stack_goto pc rfl rfl
  have hparent := h.lists.linking t c p pc
  have hborn : ∀ m, (if s.requested p then Function.update s.requested c true
      else s.requested) m = true → s.requested m = true ∨ (m = c ∧ s.requested p = true) := by
    intro m hm
    split at hm
    · rename_i hp
      by_cases hmc : m = c
      · exact .inr ⟨hmc, hp⟩
      · exact .inl ((Function.update_of_ne hmc ..).symm.trans hm)
    · exact .inl hm
  refine ⟨link_lists h.lists h.knowing pc, link_knowing h.knowing hmakers pc,
    link_walks h.walks h.lists h.knowing pc free, ⟨fun m hm => ?_, fun t' f hf => ?_⟩,
    h.waits.of_same rfl rfl fun j _ harmed hreq hbefore => ?_⟩
  · rcases hborn m hm with hold | ⟨rfl, hp⟩
    · exact h.origin.requested m hold
    · obtain ⟨a, ha, habove⟩ := h.origin.requested p hp
      exact ⟨a, ha, .up hparent habove⟩
  · rw [hstack] at hf
    exact h.origin.stack t' f hf
  · rcases hborn _ hreq with hold | ⟨hnode, -⟩
    · exact wakeful_of_stack hstack (hbefore hold)
    · have hused : (s.awaiter j).pc ≠ .unused := by
        intro hpc
        rw [hpc] at harmed
        cases harmed
      have hknown := h.knowing.awaiter j hused
      rw [hnode] at hknown
      exact absurd hknown (not_known _ pc (Nat.le_refl 1))

theorem unlink_tree (h : Tree s kids) (hl : Ledger s) {p : Nat}
    (pc : s.threads t = .releasing n .unlink) (up : s.parent n = some p)
    (free : s.treeLock p = none) :
    Tree ((s.unlinkFromParent p n).goto t (.releasing n .free))
      (Function.update kids p ((kids p).erase n)) := by
  have hstack : ∀ t', (((s.unlinkFromParent p n).goto t (.releasing n .free)).threads t').stack =
      (s.threads t').stack := stack_goto pc rfl rfl
  refine ⟨unlink_lists h.lists hl pc up, unlink_knowing h.knowing pc, unlink_walks h.walks pc free,
    ⟨h.origin.requested, fun t' f hf => ?_⟩,
    h.waits.pass rfl rfl rfl fun _ => wakeful_of_stack hstack⟩
  rw [hstack] at hf
  exact h.origin.stack t' f hf

/-! ### Awaiters -/

theorem Tree.of_waits (h : Tree s kids) (hwaits : Waits s') (hlinks : SameLinks s s')
    (hturns : Turns s s') (hstack : ∀ t, (s'.threads t).stack = (s.threads t).stack)
    (hreq : s'.requested = s.requested) (hlock : s'.treeLock = s.treeLock)
    (hcalled : s'.called = s.called) (hhandle : s'.handle = s.handle)
    (hawaiter : ∀ j, (s'.awaiter j).pc ≠ .unused →
      ((s.awaiter j).pc ≠ .unused ∧ (s'.awaiter j).node = (s.awaiter j).node) ∨
        Known s (s'.awaiter j).node) : Tree s' kids where
  lists := h.lists.of_same hlinks hturns
  knowing := by
    refine h.knowing.of_same hlinks hturns ?_ hawaiter
    rw [hhandle]
    exact fun _ _ => .inl
  walks := by
    refine h.walks.keep hstack ?_ hlock (fun _ _ _ => rfl) ?_
    · rw [hreq]
      exact fun _ => id
    · rw [hreq]
      exact fun p hp => .inl ⟨hp, fun _ hc => .inl hc⟩
  origin := h.origin.of_same hreq hcalled hlinks.parent fun t f hf => ⟨t, f, hstack t ▸ hf, rfl⟩
  waits := hwaits

theorem awaiter_set {a : Awaiter} (hnode : a.node = (s.awaiter j).node)
    (hused : (s.awaiter j).pc ≠ .unused) (j' : Nat)
    (hj' : (Function.update s.awaiter j a j').pc ≠ .unused) :
    ((s.awaiter j').pc ≠ .unused ∧
      (Function.update s.awaiter j a j').node = (s.awaiter j').node) ∨
        Known s (Function.update s.awaiter j a j').node := by
  by_cases hj : j' = j
  · subst hj
    rw [Function.update_self]
    exact .inl ⟨hused, hnode⟩
  · rw [Function.update_of_ne hj] at hj' ⊢
    exact .inl ⟨hj', rfl⟩

theorem suspend_tree (h : Tree s kids) (j : Nat) (cancelled : Bool) :
    Tree (s.suspend j cancelled) kids := by
  have hwaits := suspend_waits h.waits j cancelled
  unfold State.suspend at hwaits ⊢
  cases hpc : (s.awaiter j).pc with
  | unused | parked | ended => exact h
  | ready | begin | push | check | arm | undo | withdraw =>
      rw [hpc] at hwaits
      have hused : (s.awaiter j).pc ≠ .unused := by
        rw [hpc]
        exact AwaitPc.noConfusion
      exact h.of_waits hwaits ⟨rfl, rfl, rfl, rfl, rfl⟩ (.of_same rfl rfl rfl) (fun _ => rfl) rfl rfl
        rfl rfl (awaiter_set rfl hused)

theorem hook_tree (h : Tree s kids) (pc : s.threads t = .kicked n .hook)
    (suspended : (s.awaiter j).pc = .parked) :
    Tree ((s.runCancelHook j).goto t (.releasing n (.drop true))) kids := by
  have hwaits := runCancelHook_waits h.waits suspended
  have hused : (s.awaiter j).pc ≠ .unused := by
    rw [suspended]
    exact AwaitPc.noConfusion
  have hafter : Tree (s.runCancelHook j) kids := by
    unfold State.runCancelHook at hwaits ⊢
    split at hwaits
    · rename_i htaken
      rw [if_pos htaken]
      exact h.of_waits hwaits ⟨rfl, rfl, rfl, rfl, rfl⟩ (.of_same rfl rfl rfl) (fun _ => rfl) rfl rfl
        rfl rfl (awaiter_set rfl hused)
    · rename_i hmissed
      rw [if_neg hmissed]
      exact h
  have hbooks := sameBooks_runCancelHook s j
  have hpc : (s.runCancelHook j).threads t = .kicked n .hook := by rw [hbooks.threads, pc]
  exact hafter.goto (x := s.runCancelHook j) hpc
    ⟨⟨rfl, rfl, rfl, rfl, rfl⟩, rfl, rfl, rfl, rfl, rfl⟩ rfl rfl rfl
    ⟨by simp, by simp, by simp, by simp⟩ rfl fun _ _ => .inl

theorem wakeCheck_tree (h : Tree s kids)
    (pc : s.threads t = .cancelling (⟨n, .wakeCheck⟩ :: below)) :
    Tree (s.goto t (.cancelling
      (⟨n, if (s.cancelWaiters n).emptyRelaxed then .kickLoad else .wakeAll⟩ :: below))) kids := by
  have hstack : (s.threads t).stack = ⟨n, .wakeCheck⟩ :: below := by rw [pc]; rfl
  have hturns : Turns s (s.goto t (.cancelling
      (⟨n, if (s.cancelWaiters n).emptyRelaxed then .kickLoad else .wakeAll⟩ :: below))) :=
    .goto pc rfl rfl rfl (plain_call (by simp))
  refine ⟨h.lists.of_same ⟨rfl, rfl, rfl, rfl, rfl⟩ hturns,
    h.knowing.of_same ⟨rfl, rfl, rfl, rfl, rfl⟩ hturns (fun _ _ => .inl) (fun j hj => .inl ⟨hj, rfl⟩),
    h.walks.advance pc rfl rfl rfl (by simp) ?_ ?_, h.origin.of_same rfl rfl rfl ?_,
    wakeCheck_waits h.waits pc⟩
  · split <;> simp
  · intro c
    split <;> simp
  · intro t' f hf
    refine (stack_nodes (p := fun _ => False) rfl ?_ t' hf).resolve_left id
    intro g hg
    refine .inr ?_
    rw [hstack]
    rcases List.mem_cons.mp hg with heq | hg
    · exact ⟨_, List.mem_cons_self, by rw [heq]⟩
    · exact ⟨g, List.mem_cons_of_mem _ hg, rfl⟩

theorem wakeAll_tree (h : Tree s kids)
    (pc : s.threads t = .cancelling (⟨n, .wakeAll⟩ :: below)) :
    Tree ((s.wakeAll n).goto t (.cancelling (⟨n, .kickLoad⟩ :: below))) kids := by
  have hstack : (s.threads t).stack = ⟨n, .wakeAll⟩ :: below := by rw [pc]; rfl
  have hturns : Turns s ((s.wakeAll n).goto t (.cancelling (⟨n, .kickLoad⟩ :: below))) :=
    .goto pc rfl rfl rfl (plain_call (by simp))
  have hawaiter : ∀ j, ((s.wakeAll n).awaiter j).pc = (s.awaiter j).pc ∧
      ((s.wakeAll n).awaiter j).node = (s.awaiter j).node := by
    intro j
    unfold State.wakeAll
    dsimp only
    split
    · exact ⟨rfl, rfl⟩
    · exact ⟨rfl, rfl⟩
  refine ⟨h.lists.of_same ⟨rfl, rfl, rfl, rfl, rfl⟩ hturns,
    h.knowing.of_same ⟨rfl, rfl, rfl, rfl, rfl⟩ hturns (fun _ _ => .inl) (fun j hj => .inl ?_),
    h.walks.advance pc rfl rfl rfl (by simp) (by simp) (by simp), h.origin.of_same rfl rfl rfl ?_,
    wakeAll_waits h.waits (h.walks.chain t) pc⟩
  · obtain ⟨hpc, hnode⟩ := hawaiter j
    exact ⟨fun hunused => hj (hpc.trans hunused), hnode⟩
  · intro t' f hf
    refine (stack_nodes (s := s) (x := s.wakeAll n) (p := fun _ => False) rfl ?_ t' hf).resolve_left id
    intro g hg
    refine .inr ?_
    rw [hstack]
    rcases List.mem_cons.mp hg with heq | hg
    · exact ⟨_, List.mem_cons_self, by rw [heq]⟩
    · exact ⟨g, List.mem_cons_of_mem _ hg, rfl⟩

theorem onCancel_tree (h : Tree s kids) (hl : Ledger s) (unused : (s.awaiter j).pc = .unused)
    (held : s.Held n) : Tree (s.setAwaiter j ⟨n, .ready, false, false⟩) kids := by
  refine h.of_waits (onCancel_waits h.waits unused) ⟨rfl, rfl, rfl, rfl, rfl⟩
    (.of_same rfl rfl rfl) (fun _ => rfl) rfl rfl rfl rfl fun j' hj' => ?_
  by_cases hj : j' = j
  · subst hj
    refine .inr ?_
    rw [show (s.setAwaiter j' ⟨n, .ready, false, false⟩).awaiter j' = ⟨n, .ready, false, false⟩
      from Function.update_self ..]
    exact h.knowing.held hl.makers held
  · have hold : (s.setAwaiter j ⟨n, .ready, false, false⟩).awaiter j' = s.awaiter j' :=
      Function.update_of_ne hj ..
    rw [hold] at hj' ⊢
    exact .inl ⟨hj', rfl⟩

theorem resume_tree (h : Tree s kids) (fired : (s.awaiter j).fired = true) :
    Tree (s.setAwaiter j { s.awaiter j with resumed := true }) kids := by
  have hused : (s.awaiter j).pc ≠ .unused := by
    intro hunused
    have hlisted := h.waits.fired j fired
    rw [hunused] at hlisted
    cases hlisted
  exact h.of_waits (resume_waits h.waits fired) ⟨rfl, rfl, rfl, rfl, rfl⟩
    (.of_same rfl rfl rfl) (fun _ => rfl) rfl rfl rfl rfl (awaiter_set rfl hused)

/-! ### Handles and references -/

theorem making_plain {c : Nat} {pc pc' : Making} (hle : pc.rank ≤ pc'.rank) (htwo : 2 ≤ pc.rank) :
    Thread.Plain (.making c pc) (.making c pc') := by
  refine ⟨fun c' pc'' heq => ?_, fun c' p heq => ?_, fun c' p heq => ?_, by simp⟩
  · obtain ⟨rfl, rfl⟩ := Thread.making.inj heq
    exact ⟨pc, rfl, hle⟩
  · obtain ⟨rfl, rfl⟩ := Thread.making.inj heq
    have hcontra := htwo.trans hle
    exact absurd hcontra (Nat.not_succ_le_self 1)
  · obtain ⟨rfl, rfl⟩ := Thread.making.inj heq
    exact absurd htwo (Nat.not_succ_le_self 1)

theorem handle_set {i i' m : Nat} {v : Option Nat} (hv : ∀ m, v = some m → Known s m)
    (hi : Function.update s.handle i v i' = some m) : s.handle i' = some m ∨ Known s m := by
  by_cases hii : i' = i
  · rw [hii, Function.update_self] at hi
    exact .inr (hv m hi)
  · rw [Function.update_of_ne hii] at hi
    exact .inl hi

theorem make_tree (h : Tree s kids) (task : Bool) {first : Making} (pc : s.threads t = .idle)
    (hfirst : ∀ q, first ≠ .link q) :
    Tree ((s.alloc task).goto t (.making s.next first)) kids :=
  h.pass ⟨⟨rfl, rfl, rfl, rfl, rfl⟩, rfl, rfl, rfl, rfl, rfl⟩ (make_turns pc hfirst)
    (stack_goto (x := s.alloc task) pc rfl rfl) fun _ _ => .inl

theorem give_tree (h : Tree s kids) (hmakers : Makers s) {c i : Nat}
    (pc : s.threads t = .making c .give) :
    Tree ({ s with handle := Function.update s.handle i (some c) }.goto t .idle) kids := by
  have hknown : Known s c := by
    refine ⟨hmakers.made t c _ pc, fun t' pc' hpc' => ?_⟩
    obtain rfl := hmakers.maker _ _ _ _ _ hpc' pc
    obtain ⟨-, rfl⟩ := Thread.making.inj (hpc'.symm.trans pc)
    exact Nat.le_of_ble_eq_true rfl
  exact h.goto pc ⟨⟨rfl, rfl, rfl, rfl, rfl⟩, rfl, rfl, rfl, rfl, rfl⟩ rfl rfl rfl
    ⟨by simp, by simp, by simp, by simp⟩ rfl
    fun _ _ hi => handle_set (fun _ hm => Option.some.inj hm ▸ hknown) hi

theorem copy_tree (h : Tree s kids) (hmakers : Makers s) (i : Nat) (held : s.Held n) :
    Tree { s.addRef n with handle := Function.update s.handle i (some n) } kids :=
  h.pass ⟨⟨rfl, rfl, rfl, rfl, rfl⟩, rfl, rfl, rfl, rfl, rfl⟩ (.of_same rfl rfl rfl)
    (fun _ => rfl) fun _ _ hi =>
      handle_set (fun _ hm => Option.some.inj hm ▸ h.knowing.held hmakers held) hi

theorem detach_tree (h : Tree s kids) (i : Nat) (pc : s.threads t = .idle) :
    Tree ({ s with handle := Function.update s.handle i none }.goto t
      (.releasing n (.drop false))) kids :=
  h.goto pc ⟨⟨rfl, rfl, rfl, rfl, rfl⟩, rfl, rfl, rfl, rfl, rfl⟩ rfl rfl rfl
    (plain_idle (by simp)) rfl fun _ _ hi => handle_set (v := none) (fun _ => nofun) hi

theorem drop_tree (h : Tree s kids) {kick : Bool}
    (pc : s.threads t = .releasing n (.drop kick)) :
    Tree ({ s with
      refs := Function.update s.refs n (s.refs n - 1),
      unkicked := Function.update s.unkicked n (s.unkicked n + kick.toNat) }.goto t
        (if s.refs n = 1 then .releasing n .unlink else .idle)) kids := by
  refine h.goto pc ⟨⟨rfl, rfl, rfl, rfl, rfl⟩, rfl, rfl, rfl, rfl, rfl⟩ rfl rfl rfl
    ⟨?_, ?_, by simp, by simp⟩ ?_ fun _ _ => .inl
  · split <;> simp
  · split <;> simp
  · split <;> rfl

theorem free_tree (h : Tree s kids) (pc : s.threads t = .releasing n .free) :
    Tree ({ s with deleted := Function.update s.deleted n (s.deleted n + 1) }.goto t
      (s.behindFree n)) kids := by
  have hnew : ∀ c pc', s.behindFree n ≠ .making c pc' := by
    unfold State.behindFree
    cases s.parent n <;> simp
  have hstack : (s.behindFree n).stack = [] := by
    unfold State.behindFree
    cases s.parent n <;> rfl
  exact h.pass ⟨⟨rfl, rfl, rfl, rfl, rfl⟩, rfl, rfl, rfl, rfl, rfl⟩ (free_turns pc hnew)
    (stack_goto (x := { s with
      deleted := Function.update s.deleted n (s.deleted n + 1) }) pc rfl hstack)
    fun _ _ => .inl

theorem kickFlag_tree (h : Tree s kids) {w : Nat}
    (pc : s.threads t = .cancelling (⟨n, .kickFlag w⟩ :: below)) :
    Tree ({ s with kickPending := Function.update s.kickPending n true }.goto t
      (.cancelling (⟨n, if s.kickPending n then .lock else .kickTake w⟩ :: below))) kids := by
  refine h.advance pc ⟨⟨rfl, rfl, rfl, rfl, rfl⟩, rfl, rfl, rfl, rfl, rfl⟩ rfl rfl rfl
    rfl (by simp) rfl ?_ fun c => ?_
  · split <;> simp
  · split <;> simp

/-! ### Every step -/

theorem step_tree (hl : Ledger s) (h : Tree s kids) (hstep : Step build s s') :
    ∃ kids', Tree s' kids' := by
  have hsame : SameTree s s := ⟨⟨rfl, rfl, rfl, rfl, rfl⟩, rfl, rfl, rfl, rfl, rfl⟩
  cases hstep with
  | make t p task pc known =>
      refine ⟨kids, make_tree h task pc fun q => ?_⟩
      cases p with
      | none => cases task <;> exact Making.noConfusion
      | some p => exact Making.noConfusion
  | retain t c p pc held => exact ⟨kids, retain_tree h hl.makers pc held⟩
  | link t c p pc free => exact ⟨_, link_tree h hl.makers pc free⟩
  | run t c pc =>
      exact ⟨kids, h.goto pc ⟨⟨rfl, rfl, rfl, rfl, rfl⟩, rfl, rfl, rfl, rfl, rfl⟩ rfl rfl rfl
        (making_plain (by decide) (by decide)) rfl fun _ _ => .inl⟩
  | register t c pc =>
      exact ⟨kids, h.goto pc ⟨⟨rfl, rfl, rfl, rfl, rfl⟩, rfl, rfl, rfl, rfl, rfl⟩ rfl rfl rfl
        (making_plain (by decide) (by decide)) rfl fun _ _ => .inl⟩
  | unregistered t c pc | spawn t c pc =>
      exact ⟨kids, h.goto pc hsame rfl rfl rfl (making_plain (by decide) (by decide)) rfl
        fun _ _ => .inl⟩
  | give t c i pc unused => exact ⟨kids, give_tree h hl.makers pc⟩
  | copy i n unused held => exact ⟨kids, copy_tree h hl.makers i held⟩
  | detach t i n pc points => exact ⟨kids, detach_tree h i pc⟩
  | complete t n pc running spawned =>
      exact ⟨kids, h.goto pc ⟨⟨rfl, rfl, rfl, rfl, rfl⟩, rfl, rfl, rfl, rfl, rfl⟩ rfl rfl rfl
        (plain_idle (by simp)) rfl fun _ _ => .inl⟩
  | sweep t n pc entry done =>
      exact ⟨kids, h.goto pc ⟨⟨rfl, rfl, rfl, rfl, rfl⟩, rfl, rfl, rfl, rfl, rfl⟩ rfl rfl rfl
        (plain_idle (by simp)) rfl fun _ _ => .inl⟩
  | unregister t n pc entry =>
      exact ⟨kids, h.goto pc ⟨⟨rfl, rfl, rfl, rfl, rfl⟩, rfl, rfl, rfl, rfl, rfl⟩ rfl rfl rfl
        (plain_idle (by simp)) rfl fun _ _ => .inl⟩
  | drop t n kick pc => exact ⟨kids, drop_tree h pc⟩
  | unlinkRoot t n pc root =>
      exact ⟨kids, h.goto pc hsame rfl rfl rfl ⟨by simp, by simp, by simp, by simp⟩ rfl
        fun _ _ => .inl⟩
  | unlink t n p pc up free => exact ⟨_, unlink_tree h hl pc up free⟩
  | free t n pc => exact ⟨kids, free_tree h pc⟩
  | request t n pc held => exact ⟨kids, request_tree h pc⟩
  | exchange t n below pc =>
      split
      · rename_i hreq
        exact ⟨kids, ret_tree h pc (ret_walks h.walks h.lists pc rfl rfl rfl (fun _ _ _ hm => hm)
          (.inl rfl) hreq fun hne => absurd rfl hne) rfl ⟨rfl, rfl, rfl, rfl, rfl⟩ rfl rfl rfl rfl
          rfl rfl rfl rfl⟩
      · exact ⟨kids, exchange_tree h pc⟩
  | wakeCheck t n below pc => exact ⟨kids, wakeCheck_tree h pc⟩
  | wakeAll t n below pc => exact ⟨kids, wakeAll_tree h pc⟩
  | kickSkip t n below pc =>
      exact ⟨kids, h.advance pc hsame rfl rfl rfl rfl (by simp) rfl (by simp) (by simp)⟩
  | kickLoad t n w below pc task reuseaddr =>
      exact ⟨kids, h.advance pc hsame rfl rfl rfl rfl (by simp) rfl (by simp) (by simp)⟩
  | kickFlag t n w below pc => exact ⟨kids, kickFlag_tree h pc⟩
  | kickTake t n w below pc alive =>
      exact ⟨kids, h.advance pc ⟨⟨rfl, rfl, rfl, rfl, rfl⟩, rfl, rfl, rfl, rfl, rfl⟩ rfl rfl rfl rfl
        (by simp) rfl (by simp) (by simp)⟩
  | kickMiss t n w below pc dead =>
      exact ⟨kids, h.advance pc hsame rfl rfl rfl rfl (by simp) rfl (by simp) (by simp)⟩
  | kickReset t n below pc =>
      exact ⟨kids, h.advance pc ⟨⟨rfl, rfl, rfl, rfl, rfl⟩, rfl, rfl, rfl, rfl, rfl⟩ rfl rfl rfl rfl
        (by simp) rfl (by simp) (by simp)⟩
  | kickPush t n w below pc =>
      exact ⟨kids, h.advance pc ⟨⟨rfl, rfl, rfl, rfl, rfl⟩, rfl, rfl, rfl, rfl, rfl⟩ rfl rfl rfl rfl
        (by simp) rfl (by simp) (by simp)⟩
  | lock t n below pc free => exact ⟨kids, lock_tree h pc free⟩
  | visit t n c below pc => exact ⟨kids, visit_tree h pc⟩
  | unlock t n below pc => exact ⟨kids, unlock_tree h pc⟩
  | popKick t w n rest pc queue =>
      exact ⟨kids, h.goto pc ⟨⟨rfl, rfl, rfl, rfl, rfl⟩, rfl, rfl, rfl, rfl, rfl⟩ rfl rfl rfl
        (plain_idle (by simp)) rfl fun _ _ => .inl⟩
  | clear t n pc =>
      exact ⟨kids, h.goto pc ⟨⟨rfl, rfl, rfl, rfl, rfl⟩, rfl, rfl, rfl, rfl, rfl⟩ rfl rfl rfl
        ⟨by simp, by simp, by simp, by simp⟩ rfl fun _ _ => .inl⟩
  | hook t n j pc undone suspended => exact ⟨kids, hook_tree h pc suspended⟩
  | hookless t n pc =>
      exact ⟨kids, h.goto pc hsame rfl rfl rfl ⟨by simp, by simp, by simp, by simp⟩ rfl
        fun _ _ => .inl⟩
  | onCancel j n unused held => exact ⟨kids, onCancel_tree h hl unused held⟩
  | suspend j cancelled => exact ⟨kids, suspend_tree h j cancelled⟩
  | resume j fired once suspended => exact ⟨kids, resume_tree h fired⟩

theorem tree_new : Tree .new fun _ => [] := by
  refine ⟨⟨fun _ => rfl, fun _ => List.nodup_nil, ?_, nofun, nofun, nofun⟩,
    ⟨nofun, nofun, fun j hj => absurd rfl hj, nofun⟩,
    ⟨fun _ => trivial, fun _ => List.Pairwise.nil, nofun, nofun, nofun⟩, ⟨nofun, nofun⟩,
    ⟨?_, fun _ => List.nodup_nil, nofun, nofun, nofun⟩⟩
  · intro p c
    exact iff_of_false List.not_mem_nil (fun hc => by cases hc.1)
  · intro j n
    exact iff_of_false List.not_mem_nil (fun hc => by cases hc.2.1)

theorem tree_of_runs (h : Runs build s) : ∃ kids, Tree s kids := by
  induction h with
  | start => exact ⟨_, tree_new⟩
  | step hs hstep ih =>
      obtain ⟨kids, htree⟩ := ih
      exact step_tree (ledger_of_runs hs) htree hstep

/-! ### Flags -/

theorem step_requested (hstep : Step build s s') (hn : s.requested n = true) :
    s'.requested n = true := by
  have hset : ∀ m, Function.update s.requested m true n = true := by
    intro m
    by_cases hnm : n = m
    · subst hnm
      exact Function.update_self ..
    · rw [Function.update_of_ne hnm]
      exact hn
  cases hstep with
  | link t c p pc free =>
      show (if s.requested p then Function.update s.requested c true else s.requested) n = true
      split
      · exact hset c
      · exact hn
  | exchange t m below pc =>
      split
      · obtain ⟨th, hret, -⟩ := ret_cases s t below
        rw [hret]
        exact hn
      · exact hset m
  | unlock t m below pc =>
      obtain ⟨th, hret, -⟩ :=
        ret_cases { s with treeLock := Function.update s.treeLock m none } t below
      rw [hret]
      exact hn
  | hook t m j pc undone suspended =>
      show (s.runCancelHook j).requested n = true
      unfold State.runCancelHook
      split
      · exact hn
      · exact hn
  | suspend j cancelled =>
      unfold State.suspend
      cases (s.awaiter j).pc with
      | unused | parked | ended | ready | begin | push | check | arm | undo | withdraw => exact hn
  | make | retain | run | register | unregistered | spawn | give | copy | detach | complete | sweep
  | unregister | drop | unlinkRoot | unlink | free | request | wakeCheck | wakeAll | kickSkip
  | kickLoad | kickFlag | kickTake | kickMiss | kickReset | kickPush | lock | visit | popKick
  | clear | hookless | onCancel | resume => exact hn

/-- A node below a cancelled one is cancelled when nothing is in progress: every live node
between them is in the list of its parent. -/
theorem Tree.spread (h : Tree s kids) (hl : Ledger s) (hquiet : Quiet s) {m : Nat}
    (hn : s.requested n = true) (habove : Above s.parent n m) (hm : s.deleted m = 0) :
    s.requested m = true := by
  induction habove with
  | refl => exact hn
  | @up b p hp _ ih =>
      have hlinked : s.linked b = true := by
        rcases h.lists.attached b p hp with hlinked | ⟨t, ht⟩ | ⟨t, ht⟩ | hd
        · exact hlinked
        · cases (hquiet t).symm.trans ht
        · cases (hquiet t).symm.trans ht
        · exact absurd hm hd
      -- the child keeps its parent
      have hchild : s.points (.child b) = some p := (if_pos hm).trans hp
      have hparent := ih (hl.undeleted (hl.refs_ne hchild))
      have hin : b ∈ kids p := (h.lists.member p b).mpr ⟨hp, hlinked⟩
      rcases h.walks.pending p hparent with hdone | ⟨t, f, hf, -⟩
      · exact hdone b hin
      · rw [hquiet t] at hf
        cases hf

theorem Tree.woken (h : Tree s kids) (hidle : Idle s) (hparked : (s.awaiter j).pc = .parked)
    (hresumed : (s.awaiter j).resumed = false) : s.requested (s.awaiter j).node = false := by
  refine Bool.eq_false_iff.mpr fun hreq => ?_
  have hunfired : (s.awaiter j).fired = false := by
    refine Bool.eq_false_iff.mpr fun hfired => ?_
    rw [hidle.unscheduled j hfired] at hresumed
    cases hresumed
  obtain ⟨t, f, hf, -⟩ := h.waits.awake j hunfired (by rw [hparked]; rfl) hreq
  rw [hidle.quiet t] at hf
  cases hf

end Steps

/-- The children are listed, flags stay set and were asked for, and a cancellation has reached
everybody below when nothing is in progress. -/
theorem cancelled_of_runs (build : Build) (s : State) (hruns : Runs build s) :
    Cancelled build s := by
  obtain ⟨kids, h⟩ := tree_of_runs hruns
  have hl := ledger_of_runs hruns
  refine ⟨⟨kids, fun p => ⟨h.lists.row p, h.lists.nodup p⟩, h.lists.member⟩, ?_,
    h.origin.requested, ?_, ?_⟩
  · exact fun s' hstep n hn => step_requested hstep hn
  · exact fun hquiet n m hn habove hm => h.spread hl hquiet hn habove hm
  · exact fun hidle j hparked hresumed => h.woken hidle hparked hresumed

/-- Two coroutines wait in `on_cancel()`, of the child `1` of a scope `0` and of a scope `3`.  The
first scope is cancelled, and while the walk holds its lock a child `2` of `1` is linked.  When
all is idle the cancellation has reached it, and the first coroutine has gone on. -/
theorem linked_cancelled : ∃ s, Idle s ∧ s.parent 2 = some 1 ∧ s.parent 1 = some 0 ∧
    s.requested 2 = true ∧ (s.awaiter 0).resumed = true ∧ (s.awaiter 1).pc = .parked ∧
    (s.awaiter 1).resumed = false ∧ Cancelled .shared s := by
  have h₁ : Runs .shared .new := .start
  have h₂ := (h₁.step (.make 0 none false rfl nofun)).step (.give 0 0 0 rfl rfl)
  have h₃ := h₂.step (.make 0 (some 0) false rfl (by rintro q ⟨⟩; exact .inl ⟨0, rfl⟩))
  have h₄ := (h₃.step (.retain 0 1 0 rfl (.inl ⟨0, rfl⟩))).step (.link 0 1 0 rfl rfl)
  have h₅ := (h₄.step (.give 0 1 1 rfl rfl)).step (.onCancel 0 1 rfl (.inl ⟨1, rfl⟩))
  have h₆ := ((h₅.step (.suspend 0 false)).step (.suspend 0 false)).step (.suspend 0 false)
  have h₇ := (h₆.step (.suspend 0 false)).step (.suspend 0 false)
  -- the thread `1` has taken its reference, and the walk begins
  have h₈ := h₇.step (.make 1 (some 1) false rfl (by rintro q ⟨⟩; exact .inl ⟨1, rfl⟩))
  have h₉ := h₈.step (.retain 1 2 1 rfl (.inl ⟨1, rfl⟩))
  have h₁₀ := (h₉.step (.request 0 0 rfl (.inl ⟨0, rfl⟩))).step (.exchange 0 0 [] rfl)
  have h₁₁ := (h₁₀.step (.wakeCheck 0 0 [] rfl)).step (.kickSkip 0 0 [] rfl)
  have h₁₂ := (h₁₁.step (.lock 0 0 [] rfl rfl)).step (.link 1 2 1 rfl rfl)
  have h₁₃ := (h₁₂.step (.visit 0 0 1 [] rfl)).step (.exchange 0 1 _ rfl)
  have h₁₄ := (h₁₃.step (.wakeCheck 0 1 _ rfl)).step (.wakeAll 0 1 _ rfl)
  have h₁₅ := (h₁₄.step (.kickSkip 0 1 _ rfl)).step (.lock 0 1 _ rfl rfl)
  have h₁₆ := (h₁₅.step (.visit 0 1 2 _ rfl)).step (.exchange 0 2 _ rfl)
  have h₁₇ := (h₁₆.step (.wakeCheck 0 2 _ rfl)).step (.kickSkip 0 2 _ rfl)
  have h₁₈ := (h₁₇.step (.lock 0 2 _ rfl rfl)).step (.unlock 0 2 _ rfl)
  have h₁₉ := (h₁₈.step (.unlock 0 1 _ rfl)).step (.unlock 0 0 _ rfl)
  have h₂₀ := (h₁₉.step (.give 1 2 2 rfl rfl)).step (.resume 0 rfl rfl (.inr rfl))
  -- a tree that nobody has cancelled
  have h₂₁ := (h₂₀.step (.make 1 none false rfl nofun)).step (.give 1 3 3 rfl rfl)
  have h₂₂ := h₂₁.step (.onCancel 1 3 rfl (.inl ⟨3, rfl⟩))
  have h₂₃ := ((h₂₂.step (.suspend 1 false)).step (.suspend 1 false)).step (.suspend 1 false)
  have hlast := (h₂₃.step (.suspend 1 false)).step (.suspend 1 false)
  refine ⟨_, ⟨?_, ?_, ?_⟩, rfl, rfl, by decide, by decide, by decide, by decide,
    cancelled_of_runs _ _ hlast⟩
  · rintro (_ | _ | t) <;> rfl
  · rintro (_ | _ | j)
    · exact .inr (.inl rfl)
    · exact .inr (.inl rfl)
    · exact .inl rfl
  · rintro (_ | _ | j) hfired
    · rfl
    · cases hfired
    · cases hfired

end Uvent.Tasks.CancelTree
