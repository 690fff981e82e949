import Uvent.Tasks.TreeLists

/-!
# Walks

Who sets the flag of a node goes on to its children, under the lock of the node.  What is
behind it in the list is cancelled, and no list changes while somebody walks it.
-/

namespace Uvent.Tasks.CancelTree

open Uvent.Lib Uvent.Sync
open Uvent.Net.StateWord (Build)

def Thread.stack : Thread → List Frame
  | .cancelling stack => stack
  | _ => []

def Chained : List Frame → Prop
  | [] => True
  | [_] => True
  | f :: g :: below => g.point = .walk (some f.node) ∧ Chained (g :: below)

def Walked (s : State) (kids : Nat → List Nat) (n : Nat) (cur : Option Nat) : Prop :=
  ∃ pre post, kids n = pre ++ post ∧ cur = post.head? ∧ ∀ x ∈ pre, s.requested x = true

structure Walks (s : State) (kids : Nat → List Nat) : Prop where
  chain : ∀ t, Chained (s.threads t).stack
  apart : ∀ t, (s.threads t).stack.Pairwise
    (fun f g => (∃ c, f.point = .walk c) → f.node ≠ g.node)
  requested : ∀ t, ∀ f ∈ (s.threads t).stack, f.point ≠ .exchange → s.requested f.node = true
  locked : ∀ t, ∀ f ∈ (s.threads t).stack, ∀ c, f.point = .walk c →
    s.treeLock f.node = some t ∧ Walked s kids f.node c
  pending : ∀ p, s.requested p = true → (∀ c ∈ kids p, s.requested c = true) ∨
    ∃ t, ∃ f ∈ (s.threads t).stack, f.node = p ∧ f.point ≠ .exchange

section Walks

variable {s s' x : State} {kids kids' : Nat → List Nat} {t n : Nat} {th : Thread} {f : Frame}
  {below : List Frame}

/-- The outer calls hold locks. -/
theorem Chained.outer (h : Chained (f :: below)) {g : Frame} (hg : g ∈ below) :
    ∃ c, g.point = .walk (some c) := by
  induction below generalizing f with
  | nil => cases hg
  | cons g' below ih =>
      rcases List.mem_cons.mp hg with rfl | hin
      · exact ⟨_, h.1⟩
      · exact ih h.2 hin

theorem Chained.top {g : Frame} (h : Chained (f :: below)) (hnode : g.node = f.node) :
    Chained (g :: below) := by
  cases below with
  | nil => trivial
  | cons g' below =>
      refine ⟨?_, h.2⟩
      rw [hnode]
      exact h.1

theorem Walked.mono {c : Option Nat} (h : Walked s kids n c)
    (hreq : ∀ m, s.requested m = true → s'.requested m = true) (hkids : kids' n = kids n) :
    Walked s' kids' n c := by
  obtain ⟨pre, post, heq, hcur, hpre⟩ := h
  exact ⟨pre, post, hkids.trans heq, hcur, fun x hx => hreq x (hpre x hx)⟩

theorem Walks.keep (h : Walks s kids) (hstack : ∀ t, (s'.threads t).stack = (s.threads t).stack)
    (hreq : ∀ m, s.requested m = true → s'.requested m = true)
    (hlock : s'.treeLock = s.treeLock)
    (hkids : ∀ m t, s.treeLock m = some t → kids' m = kids m)
    (hnew : ∀ p, s'.requested p = true →
      (s.requested p = true ∧ ∀ c ∈ kids' p, c ∈ kids p ∨ s'.requested c = true) ∨
        ∀ c ∈ kids' p, s'.requested c = true) : Walks s' kids' := by
  refine ⟨?_, ?_, ?_, ?_, ?_⟩
  · intro t
    rw [hstack]
    exact h.chain t
  · intro t
    rw [hstack]
    exact h.apart t
  · intro t f hf hpoint
    rw [hstack] at hf
    exact hreq _ (h.requested t f hf hpoint)
  · intro t f hf c hpoint
    rw [hstack] at hf
    obtain ⟨hheld, hwalked⟩ := h.locked t f hf c hpoint
    rw [hlock]
    exact ⟨hheld, hwalked.mono hreq (hkids f.node t hheld)⟩
  · intro p hp
    rcases hnew p hp with ⟨hold, hsub⟩ | hall
    · rcases h.pending p hold with hdone | ⟨t, f, hf, hnode, hpoint⟩
      · exact .inl fun c hc => (hsub c hc).elim (fun hin => hreq c (hdone c hin)) id
      · refine .inr ⟨t, f, ?_, hnode, hpoint⟩
        rw [hstack]
        exact hf
    · exact .inl hall

theorem Walks.turn (h : Walks s kids) (hthreads : s'.threads = Function.update s.threads t th)
    (hreq : ∀ m, s.requested m = true → s'.requested m = true)
    (hlock : ∀ t', t' ≠ t → ∀ m, s.treeLock m = some t' → s'.treeLock m = some t')
    (hchain : Chained th.stack)
    (hapart : th.stack.Pairwise (fun f g => (∃ c, f.point = .walk c) → f.node ≠ g.node))
    (hrequested : ∀ f ∈ th.stack, f.point ≠ .exchange → s'.requested f.node = true)
    (hlocked : ∀ f ∈ th.stack, ∀ c, f.point = .walk c →
      s'.treeLock f.node = some t ∧ Walked s' kids f.node c)
    (hpending : ∀ p, s'.requested p = true →
      (s.requested p = true ∧ ∀ f ∈ (s.threads t).stack, f.node = p → f.point ≠ .exchange →
        (∀ c ∈ kids p, s'.requested c = true) ∨ ∃ g ∈ th.stack, g.node = p ∧ g.point ≠ .exchange) ∨
      ∃ g ∈ th.stack, g.node = p ∧ g.point ≠ .exchange) : Walks s' kids := by
  have hself : (s'.threads t).stack = th.stack := by rw [hthreads, Function.update_self]
  have hother : ∀ t', t' ≠ t → (s'.threads t').stack = (s.threads t').stack := by
    intro t' ht
    rw [hthreads, Function.update_of_ne ht]
  refine ⟨?_, ?_, ?_, ?_, ?_⟩
  · intro t'
    by_cases ht : t' = t
    · subst ht
      rw [hself]
      exact hchain
    · rw [hother t' ht]
      exact h.chain t'
  · intro t'
    by_cases ht : t' = t
    · subst ht
      rw [hself]
      exact hapart
    · rw [hother t' ht]
      exact h.apart t'
  · intro t' f hf hpoint
    by_cases ht : t' = t
    · subst ht
      rw [hself] at hf
      exact hrequested f hf hpoint
    · rw [hother t' ht] at hf
      exact hreq _ (h.requested t' f hf hpoint)
  · intro t' f hf c hpoint
    by_cases ht : t' = t
    · subst ht
      rw [hself] at hf
      exact hlocked f hf c hpoint
    · rw [hother t' ht] at hf
      obtain ⟨hheld, hwalked⟩ := h.locked t' f hf c hpoint
      exact ⟨hlock t' ht _ hheld, hwalked.mono hreq rfl⟩
  · intro p hp
    have hnew : (∃ g ∈ th.stack, g.node = p ∧ g.point ≠ .exchange) →
        ∃ t, ∃ f ∈ (s'.threads t).stack, f.node = p ∧ f.point ≠ .exchange := by
      rintro ⟨g, hg, hnode, hpoint⟩
      exact ⟨t, g, hself ▸ hg, hnode, hpoint⟩
    rcases hpending p hp with ⟨hold, hleft⟩ | hg
    · rcases h.pending p hold with hdone | ⟨t', f, hf, hnode, hpoint⟩
      · exact .inl fun c hc => hreq c (hdone c hc)
      · by_cases ht : t' = t
        · subst ht
          exact (hleft f hf hnode hpoint).imp_right hnew
        · refine .inr ⟨t', f, ?_, hnode, hpoint⟩
          rw [hother t' ht]
          exact hf
    · exact .inr (hnew hg)

/-- What is known of the innermost call, and of those that wait for it. -/
theorem Walks.calling (h : Walks s kids) (hstack : (s.threads t).stack = f :: below) :
    Chained (f :: below) ∧
      (f :: below).Pairwise (fun f g => (∃ c, f.point = .walk c) → f.node ≠ g.node) ∧
      ∀ g ∈ below, g ∈ (s.threads t).stack := by
  have hchain := h.chain t
  have hapart := h.apart t
  rw [hstack] at hchain hapart ⊢
  exact ⟨hchain, hapart, fun _ hg => List.mem_cons_of_mem _ hg⟩

theorem Walks.advance (h : Walks s kids) {p p' : Point}
    (pc : s.threads t = .cancelling (⟨n, p⟩ :: below)) (hx : x.threads = s.threads)
    (hreq : x.requested = s.requested) (hlock : x.treeLock = s.treeLock) (hold : p ≠ .exchange)
    (hnew : p' ≠ .exchange) (hwalk : ∀ c, p' ≠ .walk c) :
    Walks (x.goto t (.cancelling (⟨n, p'⟩ :: below))) kids := by
  have hstack : (s.threads t).stack = ⟨n, p⟩ :: below := by rw [pc]; rfl
  obtain ⟨hchain, hapart, hin⟩ := h.calling hstack
  have hn : s.requested n = true := h.requested t ⟨n, p⟩ (hstack ▸ List.mem_cons_self) hold
  have hupdate : (x.goto t (.cancelling (⟨n, p'⟩ :: below))).threads =
      Function.update s.threads t (.cancelling (⟨n, p'⟩ :: below)) := by
    rw [← hx]
    rfl
  have hreq' : (x.goto t (.cancelling (⟨n, p'⟩ :: below))).requested = s.requested := hreq
  have hlock' : (x.goto t (.cancelling (⟨n, p'⟩ :: below))).treeLock = s.treeLock := hlock
  refine h.turn hupdate ?_ ?_ (hchain.top rfl) ?_ ?_ ?_ ?_
  · rw [hreq']
    exact fun _ => id
  · rw [hlock']
    exact fun _ _ _ => id
  · refine List.pairwise_cons.mpr ⟨?_, (List.pairwise_cons.mp hapart).2⟩
    rintro g - ⟨c, hc⟩
    exact absurd hc (hwalk c)
  · rw [hreq']
    intro f hf hpoint
    rcases List.mem_cons.mp hf with rfl | hf
    · exact hn
    · exact h.requested t f (hin f hf) hpoint
  · rw [hlock']
    intro f hf c hpoint
    rcases List.mem_cons.mp hf with rfl | hf
    · exact absurd hpoint (hwalk c)
    · obtain ⟨hheld, hwalked⟩ := h.locked t f (hin f hf) c hpoint
      refine ⟨hheld, hwalked.mono ?_ rfl⟩
      rw [hreq']
      exact fun _ => id
  · rw [hreq']
    refine fun q hq => .inl ⟨hq, fun f hf hnode hpoint => .inr ?_⟩
    rw [hstack] at hf
    rcases List.mem_cons.mp hf with rfl | hf
    · exact ⟨⟨n, p'⟩, List.mem_cons_self, hnode, hnew⟩
    · exact ⟨f, List.mem_cons_of_mem _ hf, hnode, hpoint⟩

theorem request_walks (h : Walks s kids) (pc : s.threads t = .idle) (hx : x.threads = s.threads)
    (hreq : x.requested = s.requested) (hlock : x.treeLock = s.treeLock) :
    Walks (x.goto t (.cancelling [⟨n, .exchange⟩])) kids := by
  have hupdate : (x.goto t (.cancelling [⟨n, .exchange⟩])).threads =
      Function.update s.threads t (.cancelling [⟨n, .exchange⟩]) := by
    rw [← hx]
    rfl
  have hreq' : (x.goto t (.cancelling [⟨n, .exchange⟩])).requested = s.requested := hreq
  have hlock' : (x.goto t (.cancelling [⟨n, .exchange⟩])).treeLock = s.treeLock := hlock
  refine h.turn hupdate ?_ ?_ trivial (List.pairwise_singleton _ _) ?_ ?_ ?_
  · rw [hreq']
    exact fun _ => id
  · rw [hlock']
    exact fun _ _ _ => id
  · intro f hf hpoint
    obtain rfl := List.mem_singleton.mp hf
    exact absurd rfl hpoint
  · intro f hf c hpoint
    obtain rfl := List.mem_singleton.mp hf
    cases hpoint
  · rw [hreq']
    refine fun q hq => .inl ⟨hq, fun f hf => ?_⟩
    rw [pc] at hf
    cases hf

/-- The flag is set, and the call goes on. -/
theorem exchange_walks (h : Walks s kids)
    (pc : s.threads t = .cancelling (⟨n, .exchange⟩ :: below)) :
    Walks ({ s with requested := Function.update s.requested n true }.goto t
      (.cancelling (⟨n, .wakeCheck⟩ :: below))) kids := by
  have hstack : (s.threads t).stack = ⟨n, .exchange⟩ :: below := by rw [pc]; rfl
  obtain ⟨hchain, hapart, hin⟩ := h.calling hstack
  have hreq : ∀ m, s.requested m = true → Function.update s.requested n true m = true := by
    intro m hm
    by_cases hmn : m = n
    · subst hmn
      exact Function.update_self ..
    · rw [Function.update_of_ne hmn]
      exact hm
  have hupdate : ({ s with requested := Function.update s.requested n true }.goto t
      (.cancelling (⟨n, .wakeCheck⟩ :: below))).threads =
        Function.update s.threads t (.cancelling (⟨n, .wakeCheck⟩ :: below)) := rfl
  refine h.turn hupdate hreq (fun _ _ _ => id) (hchain.top rfl) ?_ ?_ ?_ ?_
  · refine List.pairwise_cons.mpr ⟨?_, (List.pairwise_cons.mp hapart).2⟩
    rintro g - ⟨c, hc⟩
    cases hc
  · intro f hf hpoint
    rcases List.mem_cons.mp hf with rfl | hf
    · exact Function.update_self ..
    · exact hreq _ (h.requested t f (hin f hf) hpoint)
  · intro f hf c hpoint
    rcases List.mem_cons.mp hf with rfl | hf
    · cases hpoint
    · obtain ⟨hheld, hwalked⟩ := h.locked t f (hin f hf) c hpoint
      exact ⟨hheld, hwalked.mono hreq rfl⟩
  · intro q hq
    by_cases hqn : q = n
    · subst hqn
      exact .inr ⟨⟨q, .wakeCheck⟩, List.mem_cons_self, rfl, by simp⟩
    · have hold : s.requested q = true := (Function.update_of_ne hqn ..).symm.trans hq
      refine .inl ⟨hold, fun f hf hnode hpoint => .inr ?_⟩
      rw [hstack] at hf
      rcases List.mem_cons.mp hf with rfl | hf
      · exact absurd rfl hpoint
      · exact ⟨f, List.mem_cons_of_mem _ hf, hnode, hpoint⟩

theorem lock_walks (h : Walks s kids) (hlists : Lists s kids)
    (pc : s.threads t = .cancelling (⟨n, .lock⟩ :: below)) (free : s.treeLock n = none) :
    Walks ({ s with treeLock := Function.update s.treeLock n (some t) }.goto t
      (.cancelling (⟨n, .walk (s.firstChild n)⟩ :: below))) kids := by
  have hstack : (s.threads t).stack = ⟨n, .lock⟩ :: below := by rw [pc]; rfl
  obtain ⟨hchain, hapart, hin⟩ := h.calling hstack
  have hn : s.requested n = true :=
    h.requested t ⟨n, .lock⟩ (hstack ▸ List.mem_cons_self) (by simp)
  have hlock : ∀ t' m, s.treeLock m = some t' →
      Function.update s.treeLock n (some t) m = some t' := by
    intro t' m hm
    have hne : m ≠ n := by
      rintro rfl
      rw [free] at hm
      cases hm
    rw [Function.update_of_ne hne]
    exact hm
  have hupdate : ({ s with treeLock := Function.update s.treeLock n (some t) }.goto t
      (.cancelling (⟨n, .walk (s.firstChild n)⟩ :: below))).threads =
        Function.update s.threads t (.cancelling (⟨n, .walk (s.firstChild n)⟩ :: below)) := rfl
  refine h.turn hupdate (fun _ => id) (fun t' _ m => hlock t' m) (hchain.top rfl) ?_ ?_ ?_ ?_
  · refine List.pairwise_cons.mpr ⟨?_, (List.pairwise_cons.mp hapart).2⟩
    rintro g hg - hnode
    obtain ⟨c, hc⟩ := hchain.outer hg
    have hheld := (h.locked t g (hin g hg) _ hc).1
    rw [← hnode] at hheld
    exact absurd (free.symm.trans hheld) (by simp)
  · intro f hf hpoint
    rcases List.mem_cons.mp hf with rfl | hf
    · exact hn
    · exact h.requested t f (hin f hf) hpoint
  · intro f hf c hpoint
    rcases List.mem_cons.mp hf with rfl | hf
    · obtain rfl := Point.walk.inj hpoint
      exact ⟨Function.update_self .., [], kids n, rfl, (hlists.row n).head, nofun⟩
    · obtain ⟨hheld, hwalked⟩ := h.locked t f (hin f hf) c hpoint
      exact ⟨hlock t _ hheld, hwalked⟩
  · refine fun q hq => .inl ⟨hq, fun f hf hnode hpoint => .inr ?_⟩
    rw [hstack] at hf
    rcases List.mem_cons.mp hf with rfl | hf
    · exact ⟨_, List.mem_cons_self, hnode, by simp⟩
    · exact ⟨f, List.mem_cons_of_mem _ hf, hnode, hpoint⟩

theorem visit_walks (h : Walks s kids) {c : Nat}
    (pc : s.threads t = .cancelling (⟨n, .walk (some c)⟩ :: below)) :
    Walks (s.goto t (.cancelling (⟨c, .exchange⟩ :: ⟨n, .walk (some c)⟩ :: below))) kids := by
  have hstack : (s.threads t).stack = ⟨n, .walk (some c)⟩ :: below := by rw [pc]; rfl
  obtain ⟨hchain, hapart, -⟩ := h.calling hstack
  have hupdate : (s.goto t
      (.cancelling (⟨c, .exchange⟩ :: ⟨n, .walk (some c)⟩ :: below))).threads =
        Function.update s.threads t
          (.cancelling (⟨c, .exchange⟩ :: ⟨n, .walk (some c)⟩ :: below)) := rfl
  refine h.turn hupdate (fun _ => id) (fun _ _ _ => id) ⟨rfl, hchain⟩ ?_ ?_ ?_ ?_
  · refine List.pairwise_cons.mpr ⟨?_, hapart⟩
    rintro g - ⟨c', hc'⟩
    cases hc'
  · intro f hf hpoint
    rcases List.mem_cons.mp hf with rfl | hf
    · exact absurd rfl hpoint
    · exact h.requested t f (hstack ▸ hf) hpoint
  · intro f hf c' hpoint
    rcases List.mem_cons.mp hf with rfl | hf
    · cases hpoint
    · exact h.locked t f (hstack ▸ hf) c' hpoint
  · refine fun q hq => .inl ⟨hq, fun f hf hnode hpoint => .inr ?_⟩
    rw [hstack] at hf
    exact ⟨f, List.mem_cons_of_mem _ hf, hnode, hpoint⟩

/-- A call returns; its node is cancelled, with its children if the call has walked them. -/
theorem ret_walks (h : Walks s kids) (hlists : Lists s kids) {p : Point}
    (pc : s.threads t = .cancelling (⟨n, p⟩ :: below)) (hx : x.threads = s.threads)
    (hreq : x.requested = s.requested) (hnext : x.nextSib = s.nextSib)
    (hlock : ∀ t' m, (t' = t → m ≠ n ∨ p = .exchange) → s.treeLock m = some t' →
      x.treeLock m = some t')
    (hp : p = .exchange ∨ p = .walk none) (hn : s.requested n = true)
    (hdone : p ≠ .exchange → ∀ c ∈ kids n, s.requested c = true) :
    Walks (x.ret t below) kids := by
  have hstack : (s.threads t).stack = ⟨n, p⟩ :: below := by rw [pc]; rfl
  obtain ⟨hchain, hapart, hin⟩ := h.calling hstack
  obtain ⟨hfirst, hbelow⟩ := List.pairwise_cons.mp hapart
  have houter : ∀ f ∈ below, f.node ≠ n ∨ p = .exchange := by
    intro f hf
    rcases hp with rfl | rfl
    · exact .inr rfl
    · exact .inl (hfirst f hf ⟨none, rfl⟩).symm
  cases below with
  | nil =>
      have hupdate : (x.ret t []).threads = Function.update s.threads t .idle := by
        rw [← hx]
        rfl
      refine h.turn hupdate ?_ ?_ trivial List.Pairwise.nil nofun nofun ?_
      · show ∀ m, _ → x.requested m = true
        rw [hreq]
        exact fun _ => id
      · exact fun t' ht m hm => hlock t' m (fun heq => absurd heq ht) hm
      · show ∀ q, x.requested q = true → _
        rw [hreq]
        refine fun q hq => .inl ⟨hq, fun f hf hnode hpoint => .inl ?_⟩
        show ∀ c ∈ kids q, x.requested c = true
        rw [hreq]
        rw [hstack] at hf
        obtain rfl := List.mem_singleton.mp hf
        obtain rfl : n = q := hnode
        exact hdone hpoint
  | cons g rest =>
      obtain ⟨m, point⟩ := g
      obtain ⟨hpoint, hrest⟩ := hchain
      obtain rfl : point = .walk (some n) := hpoint
      have hupdate : (x.ret t (⟨m, .walk (some n)⟩ :: rest)).threads =
          Function.update s.threads t (.cancelling (⟨m, .walk (s.nextSib n)⟩ :: rest)) := by
        rw [← hx, ← hnext]
        rfl
      have hreq' : (x.ret t (⟨m, .walk (some n)⟩ :: rest)).requested = s.requested := hreq
      have hkeep : ∀ f ∈ (⟨m, .walk (some n)⟩ :: rest : List Frame), s.treeLock f.node = some t →
          (x.ret t (⟨m, .walk (some n)⟩ :: rest)).treeLock f.node = some t :=
        fun f hf => hlock t f.node fun _ => houter f hf
      refine h.turn hupdate ?_ ?_ (hrest.top rfl) ?_ ?_ ?_ ?_
      · rw [hreq']
        exact fun _ => id
      · exact fun t' ht m hm => hlock t' m (fun heq => absurd heq ht) hm
      · obtain ⟨htop, htail⟩ := List.pairwise_cons.mp hbelow
        exact List.pairwise_cons.mpr ⟨fun g hg _ => htop g hg ⟨some n, rfl⟩, htail⟩
      · rw [hreq']
        intro f hf hne
        rcases List.mem_cons.mp hf with rfl | hf
        · exact h.requested t ⟨m, .walk (some n)⟩ (hin _ List.mem_cons_self) (by simp)
        · exact h.requested t f (hin f (List.mem_cons_of_mem _ hf)) hne
      · intro f hf c hc
        rcases List.mem_cons.mp hf with rfl | hf
        · obtain rfl := Point.walk.inj hc
          obtain ⟨hheld, pre, post, heq, hcur, hpre⟩ :=
            h.locked t ⟨m, .walk (some n)⟩ (hin _ List.mem_cons_self) _ rfl
          refine ⟨hkeep ⟨m, .walk (some n)⟩ List.mem_cons_self hheld, ?_⟩
          cases post with
          | nil => cases hcur
          | cons y post =>
              obtain rfl := Option.some.inj hcur
              have hrow := hlists.row m
              rw [show kids m = pre ++ n :: post from heq] at hrow
              refine ⟨pre ++ [n], post, ?_, hrow.next_eq, ?_⟩
              · rw [List.append_assoc]
                exact heq
              · rw [hreq']
                intro y hy
                rcases List.mem_append.mp hy with hy | hy
                · exact hpre y hy
                · obtain rfl := List.mem_singleton.mp hy
                  exact hn
        · obtain ⟨hheld, hwalked⟩ := h.locked t f (hin f (List.mem_cons_of_mem _ hf)) c hc
          refine ⟨hkeep f (List.mem_cons_of_mem _ hf) hheld, hwalked.mono ?_ rfl⟩
          rw [hreq']
          exact fun _ => id
      · rw [hreq']
        refine fun q hq => .inl ⟨hq, fun f hf hnode hne => ?_⟩
        rw [hstack] at hf
        rcases List.mem_cons.mp hf with rfl | hf
        · obtain rfl : n = q := hnode
          exact .inl (hdone hne)
        · refine .inr ?_
          rcases List.mem_cons.mp hf with rfl | hf
          · exact ⟨_, List.mem_cons_self, hnode, by simp⟩
          · exact ⟨f, List.mem_cons_of_mem _ hf, hnode, hne⟩

theorem stack_goto {old : Thread} (pc : s.threads t = old) (hx : x.threads = s.threads)
    (hstack : th.stack = old.stack) (t' : Nat) :
    ((x.goto t th).threads t').stack = (s.threads t').stack := by
  by_cases ht : t' = t
  · subst ht
    rw [pc, ← hstack]
    exact congrArg Thread.stack (Function.update_self ..)
  · rw [← hx]
    exact congrArg Thread.stack (Function.update_of_ne ht ..)

/-- A new child of a cancelled node is cancelled, and nobody walks the list. -/
theorem link_walks (h : Walks s kids) (hlists : Lists s kids) (hk : Knowing s) {c p : Nat}
    (pc : s.threads t = .making c (.link p)) (free : s.treeLock p = none) :
    Walks ((s.link p c).goto t (.making c (s.behindLink c)))
      (Function.update kids p (c :: kids p)) := by
  have hpc := (hlists.link_ne hk pc).1
  have hchildless := hlists.childless hk (not_known _ pc (Nat.le_refl 1))
  have hreq : ∀ m, s.requested m = true →
      ((s.link p c).goto t (.making c (s.behindLink c))).requested m = true := by
    intro m hm
    show (if s.requested p then Function.update s.requested c true else s.requested) m = true
    split
    · by_cases hmc : m = c
      · subst hmc
        exact Function.update_self ..
      · rw [Function.update_of_ne hmc]
        exact hm
    · exact hm
  have hborn : s.requested p = true →
      ((s.link p c).goto t (.making c (s.behindLink c))).requested c = true := by
    intro hp
    show (if s.requested p then Function.update s.requested c true else s.requested) c = true
    rw [if_pos hp]
    exact Function.update_self ..
  refine h.keep (stack_goto pc rfl rfl) hreq rfl ?_ ?_
  · intro m t' hm
    have hne : m ≠ p := by
      rintro rfl
      rw [free] at hm
      cases hm
    exact Function.update_of_ne hne ..
  · intro q hq
    by_cases hold : s.requested q = true
    · refine .inl ⟨hold, fun d hd => ?_⟩
      by_cases hqp : q = p
      · subst hqp
        rw [Function.update_self] at hd
        rcases List.mem_cons.mp hd with rfl | hd
        · exact .inr (hborn hold)
        · exact .inl hd
      · rw [Function.update_of_ne hqp] at hd
        exact .inl hd
    · have hqc : q = c := by
        by_contra hne
        refine hold (Eq.trans ?_ hq)
        show _ = (if s.requested p then Function.update s.requested c true else s.requested) q
        split
        · exact (Function.update_of_ne hne ..).symm
        · rfl
      subst hqc
      refine .inr fun d hd => ?_
      rw [Function.update_of_ne hpc.symm, hchildless] at hd
      cases hd

theorem unlink_walks (h : Walks s kids) {p : Nat} (pc : s.threads t = .releasing n .unlink)
    (free : s.treeLock p = none) :
    Walks ((s.unlinkFromParent p n).goto t (.releasing n .free))
      (Function.update kids p ((kids p).erase n)) := by
  refine h.keep (stack_goto pc rfl rfl) (fun _ => id) rfl ?_ ?_
  · intro m t' hm
    have hne : m ≠ p := by
      rintro rfl
      rw [free] at hm
      cases hm
    exact Function.update_of_ne hne ..
  · refine fun q hq => .inl ⟨hq, fun d hd => .inl ?_⟩
    by_cases hqp : q = p
    · subst hqp
      rw [Function.update_self] at hd
      exact List.mem_of_mem_erase hd
    · rw [Function.update_of_ne hqp] at hd
      exact hd

end Walks

end Uvent.Tasks.CancelTree
