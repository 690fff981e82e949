import Uvent.Lib.RefCount
import Uvent.Tasks.CancelTree

/-!
# References to cancel states

Who holds a node: its handles, its coroutine, the registry, its children until they are
deleted, the kick queues, and the calls that are about to add a reference somewhere or to
drop one.
-/

namespace Uvent.Tasks.CancelTree

open Uvent.Lib Uvent.Sync
open Uvent.Net.StateWord (Build)

/-- A reference: that of a handle, of the coroutine of `n`, of the entry of `n` in the
registry, of the child `c`, of the entry of `n` in the kick queue of `w`, or one that a
thread has in hand. -/
inductive Holder where
  | handle (i : Nat)
  | running (n : Nat)
  | registry (n : Nat)
  | child (c : Nat)
  | entry (w n : Nat)
  | thread (t : Nat)
  deriving DecidableEq, Repr

namespace Thread

def hand : Thread → Option Nat
  | .making c _ => some c
  | .kicked n _ | .releasing n (.drop _) => some n
  | .cancelling (⟨n, .kickPush _⟩ :: _) => some n
  | _ => none

/-- The node whose `kick_pending` the thread has set, or has to clear. -/
def kicking : Thread → Option Nat
  | .cancelling (⟨n, .kickTake _⟩ :: _) | .cancelling (⟨n, .kickPush _⟩ :: _)
  | .cancelling (⟨n, .kickReset⟩ :: _) => some n
  | .kicked n .clear => some n
  | _ => none

def unkicking : Thread → Option Nat
  | .kicked n _ | .releasing n (.drop true) => some n
  | _ => none

def burying : Thread → Option Nat
  | .releasing n .unlink | .releasing n .free => some n
  | _ => none

structure Same (th th' : Thread) : Prop where
  hand : th'.hand = th.hand
  kicking : th'.kicking = th.kicking
  unkicking : th'.unkicking = th.unkicking
  burying : th'.burying = th.burying

end Thread

namespace State

def points (s : State) : Holder → Option Nat
  | .handle i => s.handle i
  | .running n => if s.running n then some n else none
  | .registry n => if s.registered n then some n else none
  | .child c => if s.deleted c = 0 then s.parent c else none
  | .entry w n => if n ∈ s.kicks w then some n else none
  | .thread t => (s.threads t).hand

/-- The entries of the kick queues, and the threads that are at some point of a kick. -/
def kickView (s : State) (f : Thread → Option Nat) : Holder → Option Nat
  | .entry w n => if n ∈ s.kicks w then some n else none
  | .thread t => f (s.threads t)
  | _ => none

def graves (s : State) (t : Nat) : Option Nat := (s.threads t).burying

end State

/-- What the references promise in a state of a run.  A thread has a reference in hand only
while a call is in progress. -/
structure Owned (build : Build) (s : State) : Prop where
  counted : ∀ n, ∃ holders : Finset Holder,
    (∀ h, h ∈ holders ↔ s.points h = some n) ∧ s.refs n = holders.card
  quiet : Quiet s → ∀ t n, s.points (.thread t) ≠ some n
  once : ∀ n, s.deleted n ≤ 1
  last : ∀ n, s.deleted n = 1 → ∀ h, s.points h ≠ some n
  gone : ∀ n, n < s.next → (∀ h, s.points h ≠ some n) →
    s.deleted n = 1 ∨ ∃ t, (s.threads t).burying = some n
  dead : ∀ s', Step build s s' → ∀ n, n < s.next → s.refs n = 0 →
    s'.refs n = 0 ∧ s'.enqueued n = s.enqueued n
  alive : ∀ w n, n ∈ s.kicks w → s.refs n ≠ 0
  single : ∀ w, (s.kicks w).Nodup ∧ ∀ w' n, n ∈ s.kicks w → n ∈ s.kicks w' → w = w'
  released : ∀ n, ∃ pending : Finset Holder,
    (∀ h, h ∈ pending ↔ s.kickView Thread.unkicking h = some n) ∧
      s.enqueued n = s.unkicked n + pending.card

/-- How far a node is made: `link` has a parent, `register` runs, `spawn` is registered. -/
def Making.rank : Making → Nat
  | .retain _ => 0
  | .link _ => 1
  | .run => 2
  | .register => 3
  | .spawn => 4
  | .give => 5

structure Makers (s : State) : Prop where
  made : ∀ t c pc, s.threads t = .making c pc → c < s.next
  maker : ∀ t t' c pc pc', s.threads t = .making c pc → s.threads t' = .making c pc' → t = t'
  orphan : ∀ t c pc, s.threads t = .making c pc → pc.rank = 0 → s.parent c = none
  stopped : ∀ t c pc, s.threads t = .making c pc → pc.rank ≤ 2 → s.running c = false
  unlisted : ∀ t c pc, s.threads t = .making c pc → pc.rank ≤ 3 → s.registered c = false
  fresh : ∀ n, s.next ≤ n → s.parent n = none ∧ s.running n = false ∧ s.registered n = false

def Buried (s : State) : Prop :=
  ∃ k, RefCounted s.graves k ∧
    ∀ n, k n + s.deleted n = if n < s.next ∧ s.refs n = 0 then 1 else 0

def Unkicks (s : State) : Prop :=
  ∃ k, RefCounted (s.kickView Thread.unkicking) k ∧ ∀ n, s.enqueued n = s.unkicked n + k n

structure Ledger (s : State) : Prop where
  makers : Makers s
  refs : RefCounted s.points s.refs
  fresh : ∀ n, s.next ≤ n → s.refs n = 0
  pending : RefCounted (s.kickView Thread.kicking) (fun n => (s.kickPending n).toNat)
  nodup : ∀ w, (s.kicks w).Nodup
  buried : Buried s
  unkicks : Unkicks s

section Makers

variable {s s' : State} {t : Nat} {th : Thread}

/-- A thread goes on, and changes nothing but what it makes. -/
theorem Makers.move (h : Makers s) (hthreads : s'.threads = Function.update s.threads t th)
    (hnext : s'.next = s.next)
    (hth : ∀ c pc', th = .making c pc' → ∃ pc, s.threads t = .making c pc ∧ pc.rank ≤ pc'.rank)
    (hparent : ∀ n, s'.parent n = s.parent n ∨ ∃ pc, th = .making n pc ∧ 1 ≤ pc.rank)
    (hrunning : ∀ n, s'.running n = true → s.running n = true ∨
      ∃ pc, th = .making n pc ∧ 3 ≤ pc.rank)
    (hregistered : ∀ n, s'.registered n = true → s.registered n = true ∨
      ∃ pc, th = .making n pc ∧ 4 ≤ pc.rank) : Makers s' := by
  -- where a thread makes a node, it or its thread made it before
  have hold : ∀ t' c pc', s'.threads t' = .making c pc' →
      ∃ pc, s.threads t' = .making c pc ∧ pc.rank ≤ pc'.rank := by
    intro t' c pc' hpc
    rw [hthreads] at hpc
    by_cases ht : t' = t
    · subst ht
      rw [Function.update_self] at hpc
      exact hth c pc' hpc
    · rw [Function.update_of_ne ht] at hpc
      exact ⟨pc', hpc, Nat.le_refl _⟩
  -- only the thread that moved may have changed what it makes
  have hself : ∀ t' c pc' pc, s'.threads t' = .making c pc' → th = .making c pc → pc = pc' := by
    intro t' c pc' pc hpc hmaking
    obtain ⟨pc₁, hpc₁, -⟩ := hold t' c pc' hpc
    obtain ⟨pc₂, hpc₂, -⟩ := hth c pc hmaking
    obtain rfl := h.maker _ _ _ _ _ hpc₁ hpc₂
    rw [hthreads, Function.update_self, hmaking] at hpc
    exact (Thread.making.inj hpc).2
  refine ⟨?_, ?_, ?_, ?_, ?_, ?_⟩
  · intro t' c pc' hpc
    obtain ⟨pc, hpc, -⟩ := hold t' c pc' hpc
    rw [hnext]
    exact h.made t' c pc hpc
  · intro t₁ t₂ c pc₁ pc₂ hpc₁ hpc₂
    obtain ⟨pc, hpc, -⟩ := hold t₁ c pc₁ hpc₁
    obtain ⟨pc', hpc', -⟩ := hold t₂ c pc₂ hpc₂
    exact h.maker _ _ _ _ _ hpc hpc'
  · intro t' c pc' hpc hrank
    obtain ⟨pc, hpc₁, hle⟩ := hold t' c pc' hpc
    rcases hparent c with hsame | ⟨pc₂, hmaking, hlarge⟩
    · rw [hsame]
      exact h.orphan t' c pc hpc₁ (by omega)
    · obtain rfl := hself t' c pc' pc₂ hpc hmaking
      omega
  · intro t' c pc' hpc hrank
    obtain ⟨pc, hpc₁, hle⟩ := hold t' c pc' hpc
    refine Bool.eq_false_iff.mpr fun hrun => ?_
    rcases hrunning c hrun with hbefore | ⟨pc₂, hmaking, hlarge⟩
    · rw [h.stopped t' c pc hpc₁ (by omega)] at hbefore
      cases hbefore
    · obtain rfl := hself t' c pc' pc₂ hpc hmaking
      omega
  · intro t' c pc' hpc hrank
    obtain ⟨pc, hpc₁, hle⟩ := hold t' c pc' hpc
    refine Bool.eq_false_iff.mpr fun hentry => ?_
    rcases hregistered c hentry with hbefore | ⟨pc₂, hmaking, hlarge⟩
    · rw [h.unlisted t' c pc hpc₁ (by omega)] at hbefore
      cases hbefore
    · obtain rfl := hself t' c pc' pc₂ hpc hmaking
      omega
  · intro n hn
    rw [hnext] at hn
    obtain ⟨hnone, hrun, hentry⟩ := h.fresh n hn
    have hnot : ∀ pc, th ≠ .making n pc := by
      intro pc hmaking
      obtain ⟨pc', hpc, -⟩ := hth n pc hmaking
      exact absurd (h.made t n pc' hpc) (by omega)
    refine ⟨?_, Bool.eq_false_iff.mpr fun htrue => ?_, Bool.eq_false_iff.mpr fun htrue => ?_⟩
    · rcases hparent n with hsame | ⟨pc, hmaking, -⟩
      · rw [hsame]
        exact hnone
      · exact absurd hmaking (hnot pc)
    · rcases hrunning n htrue with hbefore | ⟨pc, hmaking, -⟩
      · rw [hrun] at hbefore
        cases hbefore
      · exact absurd hmaking (hnot pc)
    · rcases hregistered n htrue with hbefore | ⟨pc, hmaking, -⟩
      · rw [hentry] at hbefore
        cases hbefore
      · exact absurd hmaking (hnot pc)

theorem Makers.leave (h : Makers s) (hthreads : s'.threads = Function.update s.threads t th)
    (hnext : s'.next = s.next) (hth : ∀ c pc, th ≠ .making c pc) (hparent : s'.parent = s.parent)
    (hrunning : ∀ n, s'.running n = true → s.running n = true)
    (hregistered : ∀ n, s'.registered n = true → s.registered n = true) : Makers s' :=
  h.move hthreads hnext (fun c pc heq => absurd heq (hth c pc))
    (fun n => .inl (congrFun hparent n)) (fun n hn => .inl (hrunning n hn))
    (fun n hn => .inl (hregistered n hn))

theorem Makers.of_same (h : Makers s) (hthreads : s'.threads = s.threads)
    (hnext : s'.next = s.next) (hparent : s'.parent = s.parent) (hrunning : s'.running = s.running)
    (hregistered : s'.registered = s.registered) : Makers s' := by
  obtain ⟨hmade, hmaker, horphan, hstopped, hunlisted, hfresh⟩ := h
  refine ⟨?_, ?_, ?_, ?_, ?_, ?_⟩
  · rw [hthreads, hnext]
    exact hmade
  · rw [hthreads]
    exact hmaker
  · rw [hthreads, hparent]
    exact horphan
  · rw [hthreads, hrunning]
    exact hstopped
  · rw [hthreads, hregistered]
    exact hunlisted
  · rw [hnext, hparent, hrunning, hregistered]
    exact hfresh

theorem Makers.make (h : Makers s) (hidle : s.threads t = .idle) (task : Bool) (pc : Making) :
    Makers ((s.alloc task).goto t (.making s.next pc)) := by
  have hself : ((s.alloc task).goto t (.making s.next pc)).threads t = .making s.next pc :=
    Function.update_self ..
  have hother : ∀ t', t' ≠ t →
      ((s.alloc task).goto t (.making s.next pc)).threads t' = s.threads t' :=
    fun t' ht => Function.update_of_ne ht ..
  -- the new node was made by nobody
  have hcases : ∀ t' c pc', ((s.alloc task).goto t (.making s.next pc)).threads t' = .making c pc' →
      (t' = t ∧ c = s.next) ∨ (t' ≠ t ∧ s.threads t' = .making c pc' ∧ c < s.next) := by
    intro t' c pc' hpc
    by_cases ht : t' = t
    · subst ht
      rw [hself] at hpc
      exact .inl ⟨rfl, (Thread.making.inj hpc).1.symm⟩
    · rw [hother t' ht] at hpc
      exact .inr ⟨ht, hpc, h.made t' c pc' hpc⟩
  obtain ⟨hnone, hrun, hentry⟩ := h.fresh s.next (Nat.le_refl _)
  refine ⟨?_, ?_, ?_, ?_, ?_, fun n hn => h.fresh n (Nat.le_of_succ_le hn)⟩
  · intro t' c pc' hpc
    rcases hcases t' c pc' hpc with ⟨-, rfl⟩ | ⟨-, -, hlt⟩
    · exact Nat.lt_succ_self _
    · exact Nat.lt_succ_of_lt hlt
  · intro t₁ t₂ c pc₁ pc₂ hpc₁ hpc₂
    rcases hcases t₁ c pc₁ hpc₁ with ⟨rfl, rfl⟩ | ⟨-, hold₁, hlt₁⟩
    · rcases hcases t₂ _ pc₂ hpc₂ with ⟨rfl, -⟩ | ⟨-, -, hlt⟩
      · rfl
      · exact absurd hlt (lt_irrefl _)
    · rcases hcases t₂ c pc₂ hpc₂ with ⟨-, rfl⟩ | ⟨-, hold₂, -⟩
      · exact absurd hlt₁ (lt_irrefl _)
      · exact h.maker _ _ _ _ _ hold₁ hold₂
  · intro t' c pc' hpc hrank
    rcases hcases t' c pc' hpc with ⟨-, rfl⟩ | ⟨-, hold, -⟩
    · exact hnone
    · exact h.orphan t' c pc' hold hrank
  · intro t' c pc' hpc hrank
    rcases hcases t' c pc' hpc with ⟨-, rfl⟩ | ⟨-, hold, -⟩
    · exact hrun
    · exact h.stopped t' c pc' hold hrank
  · intro t' c pc' hpc hrank
    rcases hcases t' c pc' hpc with ⟨-, rfl⟩ | ⟨-, hold, -⟩
    · exact hentry
    · exact h.unlisted t' c pc' hold hrank

end Makers

end Uvent.Tasks.CancelTree
