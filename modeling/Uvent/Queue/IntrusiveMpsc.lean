import Uvent.Lib.Interleave
import Uvent.Lib.Links
import Mathlib.Logic.Function.Iterate

/-!
# The intrusive queue

Any number of threads push nodes into one `IntrusiveMPSCQueue`, and its owner pops
them; every access to `tail_` or to a `mpsc_next_` is one step, and what the owner
does to `head_` is part of the step before.  A node is given to `push` only while
it is not in the queue; the queue also keeps the nodes in the order of the
exchanges of `tail_`, and those that `pop` has returned.
-/

namespace Uvent.Queue.Intrusive

open Uvent.Lib

inductive Ptr where
  | stub
  | node (n : Nat)
  deriving DecidableEq, Repr

/-- Where the owner is in `pop`: before the first load of `mpsc_next_`, before the
one behind the stub, and so on to the last. -/
inductive PopPc where
  | idle
  | first
  | second
  | loadTail
  | storeStub
  | exchange
  | link (prev : Ptr)
  | last
  deriving DecidableEq, Repr

structure MpscQueue where
  next : Ptr → Option Ptr
  tail : Ptr
  head : Ptr
  pop : PopPc
  result : Option Ptr
  busy : Nat → Bool
  pushed : List Nat
  returned : List Ptr

def MpscQueue.new : MpscQueue :=
  ⟨fun _ => none, .stub, .stub, .idle, none, fun _ => false, [], []⟩

/-- A thread in `push`. -/
inductive PushPc where
  | idle
  | exchange (n : Nat)
  | link (prev : Ptr) (n : Nat)
  deriving DecidableEq, Repr

def PushPc.node : PushPc → Option Nat
  | .idle => none
  | .exchange n | .link _ n => some n

namespace MpscQueue

def setNext (q : MpscQueue) (p : Ptr) (next : Option Ptr) : MpscQueue :=
  { q with next := Function.update q.next p next }

def retNull (q : MpscQueue) : MpscQueue := { q with pop := .idle, result := none }

/-- `pop` returns the head and leaves `head_` at the node behind it. -/
def retHead (q : MpscQueue) (next : Ptr) : MpscQueue :=
  { q with
    head := next,
    pop := .idle,
    result := some q.head,
    returned := q.returned ++ [q.head],
    busy := match q.head with
      | .stub => q.busy
      | .node n => Function.update q.busy n false }

def popStep (q : MpscQueue) : MpscQueue :=
  match q.pop with
  | .idle => q
  | .first =>
      if q.head = .stub then
        match q.next q.head with
        | none => q.retNull
        | some next => { q with head := next, pop := .second }
      else
        match q.next q.head with
        | none => { q with pop := .loadTail }
        | some next => q.retHead next
  | .second =>
      match q.next q.head with
      | none => { q with pop := .loadTail }
      | some next => q.retHead next
  | .loadTail => if q.tail = q.head then { q with pop := .storeStub } else q.retNull
  | .storeStub => { q.setNext .stub none with pop := .exchange }
  | .exchange => { q with tail := .stub, pop := .link q.tail }
  | .link prev => { q.setNext prev (some .stub) with pop := .last }
  | .last =>
      match q.next q.head with
      | none => q.retNull
      | some next => q.retHead next

def popAlone (q : MpscQueue) : MpscQueue := Nat.iterate popStep 7 { q with pop := .first }

def emptyRelaxed (q : MpscQueue) : Bool := decide (q.tail = .stub) && decide (q.head = .stub)

end MpscQueue

abbrev System := World Nat MpscQueue PushPc

inductive Step (w : System) : System → Prop where
  | push (t n : Nat) (h : w.own t = .idle) (hn : w.shared.busy n = false) :
      Step w ⟨{ w.shared.setNext (.node n) none with busy := Function.update w.shared.busy n true },
        Function.update w.own t (.exchange n)⟩
  | exchange (t n : Nat) (h : w.own t = .exchange n) :
      Step w ⟨{ w.shared with tail := .node n, pushed := w.shared.pushed ++ [n] },
        Function.update w.own t (.link w.shared.tail n)⟩
  | link (t n : Nat) (prev : Ptr) (h : w.own t = .link prev n) :
      Step w ⟨w.shared.setNext prev (some (.node n)), Function.update w.own t .idle⟩
  | pop (h : w.shared.pop = .idle) : Step w { w with shared := { w.shared with pop := .first } }
  | popStep (h : w.shared.pop ≠ .idle) : Step w { w with shared := w.shared.popStep }

inductive Runs : System → Prop where
  | start : Runs ⟨.new, fun _ => .idle⟩
  | step {w w' : System} (hw : Runs w) (hstep : Step w w') : Runs w'

/-- The nodes between `head_` and `tail_`, in the order of the exchanges of `tail_`.
A link that is missing is one that a push or the owner is about to set. -/
structure Linked (w : System) (chain : List Ptr) : Prop where
  nodup : chain.Nodup
  first : chain.head? = some w.shared.head
  last : chain.getLast? = some w.shared.tail
  ends : w.shared.next w.shared.tail = none
  links : ∀ a b, Adj chain a b → w.shared.next a = some b ∨ w.shared.next a = none ∧
    ((∃ t n, b = .node n ∧ w.own t = .link a n) ∨ b = .stub ∧ w.shared.pop = .link a)
  linking : ∀ t n a, w.own t = .link a n → Adj chain a (.node n) ∧ w.shared.next a = none
  stubbing : ∀ a, w.shared.pop = .link a → Adj chain a .stub ∧ w.shared.next a = none
  users : w.shared.pushed.map .node = w.shared.returned ++ chain.filter (· ≠ .stub)

/-- A node is in use from its push until `pop` returns it; the owner is past the stub
while it is in the later part of `pop`. -/
structure Held (w : System) (chain : List Ptr) : Prop where
  busy : ∀ n, .node n ∈ chain → w.shared.busy n = true
  entering : ∀ t n, w.own t = .exchange n →
    w.shared.busy n = true ∧ .node n ∉ chain ∧ w.shared.next (.node n) = none
  alone : ∀ t t' n, (w.own t).node = some n → (w.own t').node = some n → t = t'
  head : w.shared.pop ∉ [.idle, .first] → w.shared.head ≠ .stub
  stub : w.shared.pop ∈ [.storeStub, .exchange] → .stub ∉ chain
  stubEnd : w.shared.pop = .exchange → w.shared.next .stub = none
  relinked : w.shared.pop = .last → .stub ∈ chain

def Sound (w : System) : Prop := ∃ chain, Linked w chain ∧ Held w chain

section Steps

variable {w : System} {chain : List Ptr} {t n : Nat}

theorem Linked.tail_mem (h : Linked w chain) : w.shared.tail ∈ chain := List.mem_of_getLast? h.last

theorem sound_new : Sound ⟨.new, fun _ => .idle⟩ := by
  refine ⟨[.stub], ⟨by simp, rfl, rfl, rfl, ?_, by simp, by simp [MpscQueue.new], rfl⟩,
    ⟨by simp, by simp, by simp [PushPc.node], by simp [MpscQueue.new], by simp [MpscQueue.new],
      fun h => by simp [MpscQueue.new] at h, fun h => by simp [MpscQueue.new] at h⟩⟩
  exact fun a b h => h.elim

theorem Sound.push (h : Sound w) (ht : w.own t = .idle) (hn : w.shared.busy n = false) :
    Sound ⟨{ w.shared.setNext (.node n) none with
        busy := Function.update w.shared.busy n true },
      Function.update w.own t (.exchange n)⟩ := by
  obtain ⟨chain, hl, hh⟩ := h
  have hout : .node n ∉ chain := by
    intro hmem
    have hbusy := hh.busy n hmem
    rw [hn] at hbusy
    simp at hbusy
  have hnext : ∀ a ∈ chain, Function.update w.shared.next (.node n) none a = w.shared.next a := by
    intro a ha
    refine Function.update_of_ne ?_ ..
    rintro rfl
    exact hout ha
  have hlink : ∀ t' a m, Function.update w.own t (.exchange n) t' = .link a m ↔
      w.own t' = .link a m := by
    intro t' a m
    by_cases htt : t' = t
    · subst htt
      simp [ht]
    · rw [Function.update_of_ne htt]
  refine ⟨chain, ⟨hl.nodup, hl.first, hl.last, ?_, ?_, ?_, ?_, hl.users⟩, ⟨?_, ?_, ?_, hh.head,
    hh.stub, ?_, hh.relinked⟩⟩
  · exact (hnext _ hl.tail_mem).trans hl.ends
  · intro a b hadj
    simp only [MpscQueue.setNext, hlink]
    rw [hnext a hadj.mem.1]
    exact hl.links a b hadj
  · intro t' m a hown
    obtain ⟨hadj, hnone⟩ := hl.linking t' m a ((hlink t' a m).mp hown)
    exact ⟨hadj, (hnext a hadj.mem.1).trans hnone⟩
  · intro a hpop
    obtain ⟨hadj, hnone⟩ := hl.stubbing a hpop
    exact ⟨hadj, (hnext a hadj.mem.1).trans hnone⟩
  · intro m hm
    by_cases hmn : m = n
    · exact absurd (hmn ▸ hm) hout
    · exact (Function.update_of_ne hmn ..).trans (hh.busy m hm)
  · intro t' m hown
    by_cases htt : t' = t
    · subst htt
      simp only [Function.update_self, PushPc.exchange.injEq] at hown
      subst hown
      exact ⟨Function.update_self .., hout, Function.update_self ..⟩
    · simp only [Function.update_of_ne htt] at hown
      obtain ⟨hbusy, hmem, hnone⟩ := hh.entering t' m hown
      have hmn : m ≠ n := by
        rintro rfl
        rw [hn] at hbusy
        simp at hbusy
      refine ⟨(Function.update_of_ne hmn ..).trans hbusy, hmem, ?_⟩
      exact (Function.update_of_ne (by simpa using hmn) ..).trans hnone
  · -- a thread that pushes `n` already would have it in use
    have hfree : ∀ t', (w.own t').node ≠ some n := by
      intro t' hnode
      cases hown : w.own t' with
      | idle => simp [hown, PushPc.node] at hnode
      | exchange m =>
          simp only [hown, PushPc.node, Option.some.injEq] at hnode
          subst hnode
          have hbusy := (hh.entering t' m hown).1
          rw [hn] at hbusy
          simp at hbusy
      | link a m =>
          simp only [hown, PushPc.node, Option.some.injEq] at hnode
          subst hnode
          exact hout (hl.linking t' m a hown).1.mem.2
    intro t₁ t₂ m h₁ h₂
    by_cases ht₁ : t₁ = t <;> by_cases ht₂ : t₂ = t
    · rw [ht₁, ht₂]
    · subst ht₁
      simp only [Function.update_self, PushPc.node, Option.some.injEq] at h₁
      subst h₁
      simp only [Function.update_of_ne ht₂] at h₂
      exact absurd h₂ (hfree t₂)
    · subst ht₂
      simp only [Function.update_self, PushPc.node, Option.some.injEq] at h₂
      subst h₂
      simp only [Function.update_of_ne ht₁] at h₁
      exact absurd h₁ (hfree t₁)
    · simp only [Function.update_of_ne ht₁] at h₁
      simp only [Function.update_of_ne ht₂] at h₂
      exact hh.alone t₁ t₂ m h₁ h₂
  · intro hpop
    have hne : Ptr.stub ≠ .node n := by simp
    exact (Function.update_of_ne hne none w.shared.next).trans (hh.stubEnd hpop)

theorem alone_update {own : Nat → PushPc} {l : PushPc}
    (h : ∀ t t' n, (own t).node = some n → (own t').node = some n → t = t')
    (hl : ∀ n, l.node = some n → (own t).node = some n) :
    ∀ t₁ t₂ m, (Function.update own t l t₁).node = some m →
      (Function.update own t l t₂).node = some m → t₁ = t₂ := by
  have hback : ∀ t₁ m, (Function.update own t l t₁).node = some m → (own t₁).node = some m := by
    intro t₁ m hm
    by_cases ht : t₁ = t
    · subst ht
      rw [Function.update_self] at hm
      exact hl m hm
    · rw [Function.update_of_ne ht] at hm
      exact hm
  exact fun t₁ t₂ m h₁ h₂ => h t₁ t₂ m (hback t₁ m h₁) (hback t₂ m h₂)

theorem Sound.exchange (h : Sound w) (ht : w.own t = .exchange n) :
    Sound ⟨{ w.shared with tail := .node n, pushed := w.shared.pushed ++ [n] },
      Function.update w.own t (.link w.shared.tail n)⟩ := by
  obtain ⟨chain, hl, hh⟩ := h
  obtain ⟨hbusy, hout, hnone⟩ := hh.entering t n ht
  have hself : Function.update w.own t (.link w.shared.tail n) t = .link w.shared.tail n :=
    Function.update_self ..
  have hother : ∀ t' a m, w.own t' = .link a m →
      Function.update w.own t (.link w.shared.tail n) t' = .link a m := by
    intro t' a m hown
    refine (Function.update_of_ne ?_ ..).trans hown
    rintro rfl
    rw [ht] at hown
    simp at hown
  refine ⟨chain ++ [.node n], ⟨?_, ?_, by simp, hnone, ?_, ?_, ?_, ?_⟩, ⟨?_, ?_, ?_, hh.head, ?_,
    hh.stubEnd, fun hpop => List.mem_append_left _ (hh.relinked hpop)⟩⟩
  · exact List.nodup_append.mpr ⟨hl.nodup, by simp, by simpa using fun a ha => ne_of_mem_of_not_mem ha hout⟩
  · rw [List.head?_append, hl.first]
    rfl
  · intro a b hadj
    rcases adj_append_singleton.mp hadj with hadj | ⟨hlast, rfl⟩
    · refine (hl.links a b hadj).imp_right (.imp_right (.imp_left ?_))
      rintro ⟨t', m, hb, hown⟩
      exact ⟨t', m, hb, hother t' a m hown⟩
    · obtain rfl := Option.some.inj (hl.last.symm.trans hlast)
      exact .inr ⟨hl.ends, .inl ⟨t, n, rfl, hself⟩⟩
  · intro t' m a hown
    by_cases htt : t' = t
    · subst htt
      simp only [hself, PushPc.link.injEq] at hown
      obtain ⟨rfl, rfl⟩ := hown
      exact ⟨adj_append_singleton.mpr (.inr ⟨hl.last, rfl⟩), hl.ends⟩
    · simp only [Function.update_of_ne htt] at hown
      obtain ⟨hadj, hnone'⟩ := hl.linking t' m a hown
      exact ⟨hadj.append _, hnone'⟩
  · intro a hpop
    obtain ⟨hadj, hnone'⟩ := hl.stubbing a hpop
    exact ⟨hadj.append _, hnone'⟩
  · rw [List.map_append, hl.users, List.filter_append, List.append_assoc]
    rfl
  · intro m hm
    rcases List.mem_append.mp hm with hm | hm
    · exact hh.busy m hm
    · simp only [List.mem_singleton, Ptr.node.injEq] at hm
      rw [hm]
      exact hbusy
  · intro t' m hown
    have htt : t' ≠ t := by
      rintro rfl
      simp at hown
    simp only [Function.update_of_ne htt] at hown
    obtain ⟨hbusy', hout', hnone'⟩ := hh.entering t' m hown
    refine ⟨hbusy', ?_, hnone'⟩
    rw [List.mem_append, not_or]
    refine ⟨hout', ?_⟩
    simp only [List.mem_singleton, Ptr.node.injEq]
    rintro rfl
    exact htt (hh.alone t' t m (by rw [hown]; rfl) (by rw [ht]; rfl))
  · exact alone_update hh.alone fun m hm => by rw [ht]; exact hm
  · intro hpop
    simpa using hh.stub hpop

theorem Sound.link {prev : Ptr} (h : Sound w) (ht : w.own t = .link prev n) :
    Sound ⟨w.shared.setNext prev (some (.node n)), Function.update w.own t .idle⟩ := by
  obtain ⟨chain, hl, hh⟩ := h
  obtain ⟨hadj, hnone⟩ := hl.linking t n prev ht
  have hother : ∀ a, a ≠ prev →
      Function.update w.shared.next prev (some (.node n)) a = w.shared.next a :=
    fun a ha => Function.update_of_ne ha ..
  have hkeep : ∀ t' pc, Function.update w.own t .idle t' = pc → pc ≠ .idle →
      t' ≠ t ∧ w.own t' = pc := by
    intro t' pc hown hpc
    have htt : t' ≠ t := by
      rintro rfl
      rw [Function.update_self] at hown
      exact hpc hown.symm
    exact ⟨htt, (Function.update_of_ne htt ..).symm.trans hown⟩
  have hlast : w.shared.tail ≠ prev := by
    intro heq
    exact hadj.not_last hl.nodup (heq ▸ hl.last)
  refine ⟨chain, ⟨hl.nodup, hl.first, hl.last, ?_, ?_, ?_, ?_, hl.users⟩,
    ⟨hh.busy, ?_, ?_, hh.head, hh.stub, ?_, hh.relinked⟩⟩
  · exact (hother _ hlast).trans hl.ends
  · intro a b hab
    by_cases ha : a = prev
    · subst ha
      obtain rfl := hadj.next_unique hab hl.nodup
      exact .inl (Function.update_self ..)
    · refine (hl.links a b hab).imp (hother a ha).trans
        (And.imp (hother a ha).trans (.imp_left ?_))
      rintro ⟨t', m, hb, hown⟩
      refine ⟨t', m, hb, (Function.update_of_ne ?_ ..).trans hown⟩
      rintro rfl
      rw [ht] at hown
      exact ha (PushPc.link.inj hown).1.symm
  · intro t' m a hown
    obtain ⟨htt, hown'⟩ := hkeep t' _ hown (by simp)
    obtain ⟨hab, hnone'⟩ := hl.linking t' m a hown'
    have ha : a ≠ prev := by
      rintro rfl
      obtain rfl := Ptr.node.inj (hadj.next_unique hab hl.nodup)
      exact htt (hh.alone t' t n (by rw [hown']; rfl) (by rw [ht]; rfl))
    exact ⟨hab, (hother a ha).trans hnone'⟩
  · intro a hpop
    obtain ⟨hab, hnone'⟩ := hl.stubbing a hpop
    have ha : a ≠ prev := by
      rintro rfl
      exact absurd (hadj.next_unique hab hl.nodup) (by simp)
    exact ⟨hab, (hother a ha).trans hnone'⟩
  · intro t' m hown
    obtain ⟨-, hown'⟩ := hkeep t' _ hown (by simp)
    obtain ⟨hbusy, hout, hnone'⟩ := hh.entering t' m hown'
    refine ⟨hbusy, hout, (hother _ ?_).trans hnone'⟩
    rintro rfl
    exact hout hadj.mem.1
  · exact alone_update hh.alone fun m hm => by simp [PushPc.node] at hm
  · intro hpop
    have hne : .stub ≠ prev := by
      rintro rfl
      have hpop' : w.shared.pop = .exchange := hpop
      exact hh.stub (by rw [hpop']; simp) hadj.mem.1
    exact (hother _ hne).trans (hh.stubEnd hpop)

/-! ## The owner -/

theorem Sound.goto (pc : PopPc) (result : Option Ptr) (hl : Linked w chain) (hh : Held w chain)
    (hold : ∀ a, w.shared.pop ≠ .link a) (hnew : ∀ a, pc ≠ .link a)
    (hhead : pc ∉ [.idle, .first] → w.shared.head ≠ .stub)
    (hstub : pc ∈ [.storeStub, .exchange] → .stub ∉ chain) (hend : pc ≠ .exchange ∧ pc ≠ .last) :
    Sound { w with shared := { w.shared with pop := pc, result := result } } := by
  refine ⟨chain, ⟨hl.nodup, hl.first, hl.last, hl.ends, ?_, hl.linking, ?_, hl.users⟩,
    ⟨hh.busy, hh.entering, hh.alone, hhead, hstub, fun hpc => absurd hpc hend.1,
      fun hpc => absurd hpc hend.2⟩⟩
  · intro a b hadj
    refine (hl.links a b hadj).imp_right (.imp_right (.imp_right ?_))
    exact fun hpop => absurd hpop.2 (hold a)
  · exact fun a hpc => absurd hpc (hnew a)

theorem Linked.behind {next : Ptr} (h : Linked w chain) (hnext : w.shared.next w.shared.head = some next) :
    ∃ rest, chain = w.shared.head :: rest ∧ rest.head? = some next := by
  cases chain with
  | nil => simpa using h.first
  | cons a rest =>
      obtain rfl : a = w.shared.head := by simpa using h.first
      refine ⟨rest, rfl, ?_⟩
      cases rest with
      | nil =>
          have htail : w.shared.head = w.shared.tail := by simpa using h.last
          rw [htail, h.ends] at hnext
          simp at hnext
      | cons b rest =>
          have hadj : Adj (w.shared.head :: b :: rest) w.shared.head b := .inl ⟨rfl, rfl⟩
          rcases h.links _ _ hadj with hb | ⟨hnone, -⟩
          · rw [hb] at hnext
            exact hnext
          · rw [hnone] at hnext
            simp at hnext

/-- The owner moves `head_` to the next node. -/
theorem Linked.advance {next : Ptr} {rest : List Ptr} {q : MpscQueue} (h : Linked w (w.shared.head :: rest))
    (hnext : w.shared.next w.shared.head = some next) (hrest : rest.head? = some next)
    (hold : ∀ a, w.shared.pop ≠ .link a) (hq : q.next = w.shared.next) (htail : q.tail = w.shared.tail)
    (hhead : q.head = next) (hpop : ∀ a, q.pop ≠ .link a) (hpushed : q.pushed = w.shared.pushed)
    (hret : q.returned = w.shared.returned ++ [w.shared.head].filter (· ≠ .stub)) :
    Linked { w with shared := q } rest := by
  have hne : ∀ a, w.shared.next a = none → a ≠ w.shared.head := by
    rintro a hnone rfl
    rw [hnone] at hnext
    simp at hnext
  refine ⟨(List.nodup_cons.mp h.nodup).2, hrest.trans (by rw [hhead]), ?_, ?_, ?_, ?_,
    fun a hpc => absurd hpc (hpop a), ?_⟩
  · have hlast := h.last
    cases rest with
    | nil => simp at hrest
    | cons b rest =>
        rw [List.getLast?_cons_cons] at hlast
        rw [hlast, htail]
  · rw [hq, htail]
    exact h.ends
  · intro a b hadj
    rw [hq]
    refine (h.links a b (hadj.cons _)).imp_right (.imp_right (.imp_right ?_))
    exact fun hpc => absurd hpc.2 (hold a)
  · intro t m a hown
    obtain ⟨hadj, hnone⟩ := h.linking t m a hown
    rw [hq]
    exact ⟨hadj.tail (hne a hnone), hnone⟩
  · rw [hpushed, h.users, hret, List.append_assoc, ← List.filter_append]
    rfl

theorem Held.advance {rest : List Ptr} {q : MpscQueue} (hnodup : (w.shared.head :: rest).Nodup)
    (h : Held w (w.shared.head :: rest)) (hq : q.next = w.shared.next)
    (hbusy : ∀ n, .node n ≠ w.shared.head → q.busy n = w.shared.busy n)
    (hhead : q.pop ∉ [.idle, .first] → q.head ≠ .stub) (hpop : q.pop ∉ [.storeStub, .exchange, .last]) :
    Held { w with shared := q } rest := by
  refine ⟨?_, ?_, h.alone, hhead, fun hpc => ?_, fun hpc => ?_, fun hpc => ?_⟩
  · intro n hn
    have hne : .node n ≠ w.shared.head := by
      intro heq
      exact (List.nodup_cons.mp hnodup).1 (heq ▸ hn)
    exact (hbusy n hne).trans (h.busy n (List.mem_cons_of_mem _ hn))
  · intro t n hown
    obtain ⟨hb, hout, hnone⟩ := h.entering t n hown
    rw [List.mem_cons, not_or] at hout
    exact ⟨(hbusy n hout.1).trans hb, hout.2, (congrFun hq _).trans hnone⟩
  · exact absurd (List.mem_append_left [PopPc.last] hpc) hpop
  · exact absurd (by rw [show q.pop = .exchange from hpc]; simp) hpop
  · exact absurd (by rw [show q.pop = .last from hpc]; simp) hpop

theorem Sound.retHead {next : Ptr} (hl : Linked w chain) (hh : Held w chain)
    (hnext : w.shared.next w.shared.head = some next) (hold : ∀ a, w.shared.pop ≠ .link a)
    (hhead : w.shared.head ≠ .stub) : Sound { w with shared := w.shared.retHead next } := by
  obtain ⟨rest, rfl, hrest⟩ := hl.behind hnext
  refine ⟨rest, hl.advance hnext hrest hold rfl rfl rfl (by simp [MpscQueue.retHead]) rfl ?_,
    Held.advance hl.nodup hh rfl ?_ (by simp [MpscQueue.retHead]) (by simp [MpscQueue.retHead])⟩
  · simp [MpscQueue.retHead, hhead]
  · intro n hn
    unfold MpscQueue.retHead
    cases hcase : w.shared.head with
    | stub => rfl
    | node m =>
        refine Function.update_of_ne ?_ ..
        rintro rfl
        exact hn hcase.symm

theorem Sound.look (hl : Linked w chain) (hh : Held w chain) (hold : ∀ a, w.shared.pop ≠ .link a)
    (hhead : w.shared.head ≠ .stub) {q : MpscQueue}
    (hq : q = { w.shared with pop := .loadTail } ∨ q = w.shared.retNull) :
    Sound { w with shared := match w.shared.next w.shared.head with
      | none => q
      | some next => w.shared.retHead next } := by
  split
  · rcases hq with rfl | rfl
    · exact Sound.goto _ _ hl hh hold (by simp) (fun _ => hhead) (by simp) (by simp)
    · exact Sound.goto _ _ hl hh hold (by simp) (by simp) (by simp) (by simp)
  · rename_i next hnext
    exact Sound.retHead hl hh hnext hold hhead

/-- The owner puts the stub behind the last node. -/
theorem Sound.exchangeStub (hl : Linked w chain) (hh : Held w chain)
    (hpop : w.shared.pop = .exchange) :
    Sound { w with shared := { w.shared with tail := .stub, pop := .link w.shared.tail } } := by
  have hout : .stub ∉ chain := hh.stub (by rw [hpop]; simp)
  refine ⟨chain ++ [.stub], ⟨?_, ?_, by simp, hh.stubEnd hpop, ?_, ?_, ?_, ?_⟩,
    ⟨?_, ?_, hh.alone, fun _ => hh.head (by rw [hpop]; simp), by simp, by simp, by simp⟩⟩
  · exact List.nodup_append.mpr ⟨hl.nodup, by simp, by simpa using fun a ha => ne_of_mem_of_not_mem ha hout⟩
  · rw [List.head?_append, hl.first]
    rfl
  · intro a b hadj
    rcases adj_append_singleton.mp hadj with hadj | ⟨hlast, rfl⟩
    · refine (hl.links a b hadj).imp_right (.imp_right (.imp_right ?_))
      rintro ⟨-, hpc⟩
      rw [hpop] at hpc
      simp at hpc
    · obtain rfl := Option.some.inj (hl.last.symm.trans hlast)
      exact .inr ⟨hl.ends, .inr ⟨rfl, rfl⟩⟩
  · intro t m a hown
    obtain ⟨hadj, hnone⟩ := hl.linking t m a hown
    exact ⟨hadj.append _, hnone⟩
  · rintro a hpc
    obtain rfl := PopPc.link.inj hpc
    exact ⟨adj_append_singleton.mpr (.inr ⟨hl.last, rfl⟩), hl.ends⟩
  · rw [hl.users, List.filter_append]
    simp
  · intro m hm
    refine hh.busy m ?_
    simpa using hm
  · intro t m hown
    obtain ⟨hb, hm, hnone⟩ := hh.entering t m hown
    exact ⟨hb, by simpa using hm, hnone⟩

theorem Sound.linkStub {prev : Ptr} (hl : Linked w chain) (hh : Held w chain)
    (hpop : w.shared.pop = .link prev) :
    Sound { w with shared := { w.shared.setNext prev (some .stub) with pop := .last } } := by
  obtain ⟨hadj, hnone⟩ := hl.stubbing prev hpop
  have hother : ∀ a, a ≠ prev →
      Function.update w.shared.next prev (some .stub) a = w.shared.next a :=
    fun a ha => Function.update_of_ne ha ..
  have hlast : w.shared.tail ≠ prev := by
    intro heq
    exact hadj.not_last hl.nodup (heq ▸ hl.last)
  refine ⟨chain, ⟨hl.nodup, hl.first, hl.last, ?_, ?_, ?_, by simp, hl.users⟩,
    ⟨hh.busy, ?_, hh.alone, fun _ => hh.head (by rw [hpop]; simp), by simp, by simp,
      fun _ => hadj.mem.2⟩⟩
  · exact (hother _ hlast).trans hl.ends
  · intro a b hab
    by_cases ha : a = prev
    · subst ha
      obtain rfl := hadj.next_unique hab hl.nodup
      exact .inl (Function.update_self ..)
    · refine (hl.links a b hab).imp (hother a ha).trans (And.imp (hother a ha).trans (.imp_right ?_))
      rintro ⟨-, hpc⟩
      rw [hpop] at hpc
      exact absurd (PopPc.link.inj hpc).symm ha
  · intro t m a hown
    obtain ⟨hab, hnone'⟩ := hl.linking t m a hown
    have ha : a ≠ prev := by
      rintro rfl
      exact absurd (hadj.next_unique hab hl.nodup) (by simp)
    exact ⟨hab, (hother a ha).trans hnone'⟩
  · intro t m hown
    obtain ⟨hb, hout, hnone'⟩ := hh.entering t m hown
    refine ⟨hb, hout, (hother _ ?_).trans hnone'⟩
    rintro rfl
    exact hout hadj.mem.1

theorem Sound.popStep (h : Sound w) (hbusy : w.shared.pop ≠ .idle) :
    Sound { w with shared := w.shared.popStep } := by
  obtain ⟨chain, hl, hh⟩ := h
  unfold MpscQueue.popStep
  cases hpop : w.shared.pop with
  | idle => exact absurd hpop hbusy
  | first =>
      have hold : ∀ a, w.shared.pop ≠ .link a := by simp [hpop]
      dsimp only
      split
      · rename_i hstub
        split
        · exact Sound.goto _ _ hl hh hold (by simp) (by simp) (by simp) (by simp)
        · rename_i next hnext
          obtain ⟨rest, rfl, hrest⟩ := hl.behind hnext
          refine ⟨rest, hl.advance hnext hrest hold rfl rfl rfl (by simp) rfl ?_,
            Held.advance hl.nodup hh rfl (fun _ _ => rfl) ?_ (by simp)⟩
          · simp [hstub]
          · rintro - rfl
            exact (List.nodup_cons.mp hl.nodup).1 (hstub ▸ List.mem_of_head? hrest)
      · rename_i hstub
        exact Sound.look hl hh hold hstub (.inl rfl)
  | second =>
      exact Sound.look hl hh (by simp [hpop]) (hh.head (by rw [hpop]; simp)) (.inl rfl)
  | loadTail =>
      have hold : ∀ a, w.shared.pop ≠ .link a := by simp [hpop]
      have hhead := hh.head (by rw [hpop]; simp)
      dsimp only
      split
      · rename_i htail
        -- the head is the last node, so the stub is not in the chain
        have hout : .stub ∉ chain := by
          cases chain with
          | nil => simp
          | cons a rest =>
              obtain rfl : a = w.shared.head := by simpa using hl.first
              cases rest with
              | nil => simpa using hhead.symm
              | cons b rest =>
                  have hadj : Adj (w.shared.head :: b :: rest) w.shared.head b := .inl ⟨rfl, rfl⟩
                  exact absurd (htail ▸ hl.last) (hadj.not_last hl.nodup)
        exact Sound.goto _ w.shared.result hl hh hold (by simp) (fun _ => hhead)
          (fun _ => hout) (by simp)
      · exact Sound.goto _ _ hl hh hold (by simp) (by simp) (by simp) (by simp)
  | storeStub =>
      dsimp only
      have hout : .stub ∉ chain := hh.stub (by rw [hpop]; simp)
      have hother : ∀ a ∈ chain, Function.update w.shared.next .stub none a = w.shared.next a := by
        intro a ha
        refine Function.update_of_ne ?_ ..
        rintro rfl
        exact hout ha
      have hend : (w.shared.setNext .stub none).next .stub = none := by simp [MpscQueue.setNext]
      refine ⟨chain, ⟨hl.nodup, hl.first, hl.last, ?_, ?_, ?_, by simp, hl.users⟩,
        ⟨hh.busy, ?_, hh.alone, fun _ => hh.head (by rw [hpop]; simp), fun _ => hout,
          fun _ => hend, by simp⟩⟩
      · exact (hother _ hl.tail_mem).trans hl.ends
      · intro a b hadj
        refine (hl.links a b hadj).imp (hother a hadj.mem.1).trans
          (And.imp (hother a hadj.mem.1).trans (.imp_right ?_))
        rintro ⟨-, hpc⟩
        rw [hpop] at hpc
        simp at hpc
      · intro t m a hown
        obtain ⟨hadj, hnone⟩ := hl.linking t m a hown
        exact ⟨hadj, (hother a hadj.mem.1).trans hnone⟩
      · intro t m hown
        obtain ⟨hb, hm, hnone⟩ := hh.entering t m hown
        have hne : Ptr.node m ≠ .stub := by simp
        exact ⟨hb, hm, (Function.update_of_ne hne none w.shared.next).trans hnone⟩
  | exchange => exact Sound.exchangeStub hl hh hpop
  | link prev => exact Sound.linkStub hl hh hpop
  | last => exact Sound.look hl hh (by simp [hpop]) (hh.head (by rw [hpop]; simp)) (.inr rfl)

theorem runs_sound (h : Runs w) : Sound w := by
  induction h with
  | start => exact sound_new
  | @step w w' _ hstep ih =>
      cases hstep with
      | push t n ht hn => exact ih.push ht hn
      | exchange t n ht => exact ih.exchange ht
      | link t n prev ht => exact ih.link ht
      | pop hpop =>
          obtain ⟨chain, hl, hh⟩ := ih
          exact Sound.goto _ w.shared.result hl hh (by simp [hpop]) (by simp) (by simp)
            (by simp) (by simp)
      | popStep hbusy => exact ih.popStep hbusy

end Steps

/-! ## A pop while nobody pushes -/

section Alone

open MpscQueue

variable {q : MpscQueue}

theorem iterate_popStep_idle (h : q.pop = .idle) (k : Nat) : Nat.iterate popStep k q = q := by
  have hstep : popStep q = q := by
    unfold popStep
    rw [h]
  exact Function.iterate_fixed hstep k

theorem iterate_popStep_done {q' : MpscQueue} (hstep : popStep q = q') (h : q'.pop = .idle)
    (k : Nat) : Nat.iterate popStep (k + 1) q = q' := by
  rw [Function.iterate_succ_apply, hstep, iterate_popStep_idle h]

theorem iterate_loadTail (hpop : q.pop = .loadTail) (htail : q.tail = q.head)
    (hhead : q.head ≠ .stub) :
    Nat.iterate popStep 5 q = { (q.setNext .stub none).setNext q.head (some .stub) with
      head := .stub,
      tail := .stub,
      pop := .idle,
      result := some q.head,
      returned := q.returned ++ [q.head],
      busy := (q.retHead .stub).busy } := by
  obtain ⟨next, tail, head, pop, result, busy, pushed, returned⟩ := q
  dsimp only at hpop htail
  subst hpop htail
  simp [Function.iterate_succ_apply, popStep, setNext, retHead]

/-- What a whole `pop` has done to a queue with a node in it. -/
structure Popped (q q' : MpscQueue) (n : Nat) : Prop where
  idle : q'.pop = .idle
  result : q'.result = some (.node n)
  returned : q'.returned = q.returned ++ [.node n]
  pushed : q'.pushed = q.pushed

variable {w : System} {chain : List Ptr}

theorem Linked.adj_next (h : Linked w chain) (hpush : ∀ t a n, w.own t ≠ .link a n)
    (hpop : ∀ a, w.shared.pop ≠ .link a) {a b : Ptr} (hadj : Adj chain a b) :
    w.shared.next a = some b := by
  rcases h.links a b hadj with hnext | ⟨-, ⟨t, n, -, hown⟩ | ⟨-, hpc⟩⟩
  · exact hnext
  · exact absurd hown (hpush t a n)
  · exact absurd hpc (hpop a)

/-- What stands behind a node of the users, when every link is set. -/
theorem Linked.behind_node (h : Linked w chain) (hpush : ∀ t a n, w.own t ≠ .link a n)
    (hpop : ∀ a, w.shared.pop ≠ .link a) {n : Nat} {l rest : List Ptr}
    (hchain : chain = l ++ .node n :: rest) :
    w.shared.next (.node n) = rest.head? ∧ (.node n :: rest).getLast? = some w.shared.tail := by
  have hlast : (.node n :: rest).getLast? = some w.shared.tail := by
    have hall := h.last
    rw [hchain, List.getLast?_append] at hall
    simpa using hall
  refine ⟨?_, hlast⟩
  cases rest with
  | nil =>
      have htail : Ptr.node n = w.shared.tail := by simpa using hlast
      exact htail ▸ h.ends
  | cons b rest =>
      refine h.adj_next hpush hpop ?_
      rw [hchain]
      exact adj_append_cons_cons l rest _ _

theorem popped_of_links {n : Nat} (k : Nat) (rest : List Ptr) (q : MpscQueue)
    (hnext : q.next (.node n) = rest.head?) (hlast : (.node n :: rest).getLast? = some q.tail)
    (hnodup : rest.Nodup) (hhead : q.head = .node n)
    (hlook : popStep q = match q.next q.head with
      | none => { q with pop := .loadTail }
      | some next => q.retHead next) :
    Popped q (Nat.iterate popStep (k + 6) q) n ∧
      ((Nat.iterate popStep (k + 6) q).emptyRelaxed = true ↔ rest.filter (· ≠ .stub) = []) := by
  cases rest with
  | nil =>
      have htail : Ptr.node n = q.tail := by simpa using hlast
      have hstep : popStep q = { q with pop := .loadTail } := by
        have hq : q.next q.head = none := by rw [hhead, hnext, List.head?_nil]
        rw [hlook, hq]
      have hdone := iterate_loadTail (q := { q with pop := .loadTail }) rfl
        (htail.symm.trans hhead.symm) (by rw [hhead]; simp)
      rw [show k + 6 = (k + 5) + 1 by omega, Function.iterate_succ_apply, hstep,
        Function.iterate_add_apply, hdone, iterate_popStep_idle rfl]
      refine ⟨⟨rfl, ?_, ?_, rfl⟩, ?_⟩
      · simp [hhead]
      · simp [hhead]
      · simp [emptyRelaxed]
  | cons b rest =>
      have hstep : popStep q = q.retHead b := by
        have hq : q.next q.head = some b := by rw [hhead, hnext, List.head?_cons]
        rw [hlook, hq]
      rw [iterate_popStep_done hstep rfl (k + 5)]
      rw [List.getLast?_cons_cons] at hlast
      refine ⟨⟨rfl, ?_, ?_, rfl⟩, ?_⟩
      · simp [retHead, hhead]
      · simp [retHead, hhead]
      · cases b with
        | node m => simp [emptyRelaxed, retHead]
        | stub =>
            cases rest with
            | nil =>
                have htail : Ptr.stub = q.tail := by simpa using hlast
                simp [emptyRelaxed, retHead, ← htail]
            | cons c rest =>
                rw [List.getLast?_cons_cons] at hlast
                have hstub : q.tail ≠ .stub := by
                  intro heq
                  exact (List.nodup_cons.mp hnodup).1 (heq ▸ List.mem_of_getLast? hlast)
                have hc : c ≠ .stub := by
                  rintro rfl
                  simp at hnodup
                simp [emptyRelaxed, retHead, hstub, hc]

/-- A whole `pop` from a state in which every link is set. -/
theorem Linked.popAlone (h : Linked w chain) (hpush : ∀ t a n, w.own t ≠ .link a n)
    (hpop : w.shared.pop = .idle) :
    chain.filter (· ≠ .stub) = [] ∧ w.shared.popAlone = w.shared.retNull ∨
      ∃ n rest, chain.filter (· ≠ .stub) = .node n :: rest ∧
        Popped w.shared w.shared.popAlone n ∧ (w.shared.popAlone.emptyRelaxed = true ↔ rest = []) := by
  have hidle : ∀ a, w.shared.pop ≠ .link a := by simp [hpop]
  cases chain with
  | nil => simpa using h.first
  | cons a chain =>
      obtain hhead : w.shared.head = a := by simpa using h.first.symm
      have hrest := (List.nodup_cons.mp h.nodup).2
      cases a with
      | stub =>
          cases chain with
          | nil =>
              left
              have htail : Ptr.stub = w.shared.tail := by simpa using h.last
              have hends := h.ends
              rw [← htail] at hends
              refine ⟨by simp, iterate_popStep_done ?_ rfl 6⟩
              simp [popStep, retNull, hhead, hends]
          | cons b chain =>
              right
              have hb : w.shared.next .stub = some b := h.adj_next hpush hidle (.inl ⟨rfl, rfl⟩)
              cases b with
              | stub => simpa using h.nodup
              | node n =>
                  have hstep : popStep { w.shared with pop := .first } =
                      { w.shared with head := .node n, pop := .second } := by
                    simp [popStep, hhead, hb]
                  have hmove : w.shared.popAlone = Nat.iterate popStep (0 + 6)
                      { w.shared with head := .node n, pop := .second } := by
                    unfold MpscQueue.popAlone
                    rw [Function.iterate_succ_apply, hstep]
                  obtain ⟨hnext, hlast⟩ := h.behind_node hpush hidle (l := [.stub]) rfl
                  obtain ⟨hpopped, hempty⟩ := popped_of_links 0 chain
                    { w.shared with head := .node n, pop := .second } hnext hlast
                    (List.nodup_cons.mp hrest).2 rfl rfl
                  refine ⟨n, chain.filter (· ≠ .stub), by simp, ?_, ?_⟩
                  · rw [hmove]
                    exact ⟨hpopped.idle, hpopped.result, hpopped.returned, hpopped.pushed⟩
                  · rw [hmove]
                    exact hempty
      | node n =>
          right
          obtain ⟨hnext, hlast⟩ := h.behind_node hpush hidle (l := []) rfl
          obtain ⟨hpopped, hempty⟩ := popped_of_links 1 chain { w.shared with pop := .first }
            hnext hlast hrest hhead (by simp [popStep, hhead])
          exact ⟨n, chain.filter (· ≠ .stub), by simp,
            ⟨hpopped.idle, hpopped.result, hpopped.returned, hpopped.pushed⟩, hempty⟩

end Alone

/-! ## Why a pop returns null -/

section Null

variable {w : System} {chain : List Ptr}

/-- Behind a head that points nowhere there is nothing, or a push is between its two
steps. -/
theorem Linked.half_linked (h : Linked w chain) (hpop : ∀ a, w.shared.pop ≠ .link a)
    (hnone : w.shared.next w.shared.head = none) :
    chain = [w.shared.head] ∨ ∃ t a n, w.own t = .link a n := by
  cases chain with
  | nil => simpa using h.first
  | cons a chain =>
      obtain rfl : a = w.shared.head := by simpa using h.first
      cases chain with
      | nil => exact .inl rfl
      | cons b chain =>
          rcases h.links _ b (.inl ⟨rfl, rfl⟩) with hnext | ⟨-, ⟨t, n, -, hown⟩ | ⟨-, hpc⟩⟩
          · rw [hnone] at hnext
            simp at hnext
          · exact .inr ⟨t, _, n, hown⟩
          · exact absurd hpc (hpop _)

/-- The owner looks at `tail_` because it saw nothing behind the head. -/
theorem Sound.at_tail (h : Sound w) (hold : w.shared.pop ≠ .loadTail)
    (hpop : w.shared.popStep.pop = .loadTail) :
    w.shared.popStep.tail = w.shared.popStep.head ∨ ∃ t a n, w.own t = .link a n := by
  obtain ⟨chain, hl, hh⟩ := h
  have hlook : (∀ a, w.shared.pop ≠ .link a) → w.shared.next w.shared.head = none →
      w.shared.tail = w.shared.head ∨ ∃ t a n, w.own t = .link a n := by
    intro hlink hnone
    refine (hl.half_linked hlink hnone).imp_left fun hchain => ?_
    have hlast := hl.last
    rw [hchain] at hlast
    exact (Option.some.inj hlast).symm
  unfold MpscQueue.popStep at hpop ⊢
  cases hpc : w.shared.pop with
  | first =>
      rw [hpc] at hpop
      dsimp only at hpop ⊢
      split at hpop
      · split at hpop <;> simp [MpscQueue.retNull] at hpop
      · rename_i hstub
        rw [if_neg hstub]
        split at hpop
        · rename_i hnone
          exact hlook (by simp [hpc]) hnone
        · simp [MpscQueue.retHead] at hpop
  | second =>
      rw [hpc] at hpop
      dsimp only at hpop ⊢
      split at hpop
      · rename_i hnone
        exact hlook (by simp [hpc]) hnone
      · simp [MpscQueue.retHead] at hpop
  | loadTail => exact absurd hpc hold
  | idle =>
      rw [hpc] at hpop
      exact absurd (hpc.symm.trans hpop) (by simp)
  | last =>
      rw [hpc] at hpop
      dsimp only at hpop
      split at hpop <;> simp [MpscQueue.retNull, MpscQueue.retHead] at hpop
  | _ =>
      rw [hpc] at hpop
      simp at hpop

/-- `pop` returns null: every node has been returned, or a push is between its two
steps, or `tail_` is another node than the head, behind which nothing was seen. -/
theorem Sound.null_cases (h : Sound w) (hbusy : w.shared.pop ≠ .idle)
    (hpop : w.shared.popStep.pop = .idle) (hnull : w.shared.popStep.result = none) :
    (w.shared.popStep.returned = w.shared.popStep.pushed.map .node) ∨
      (∃ t a n, w.own t = .link a n) ∨
      (w.shared.pop = .loadTail ∧ w.shared.tail ≠ w.shared.head) := by
  obtain ⟨chain, hl, hh⟩ := h
  unfold MpscQueue.popStep at hpop hnull ⊢
  cases hpc : w.shared.pop with
  | idle => exact absurd hpc hbusy
  | first =>
      rw [hpc] at hnull
      dsimp only at hnull ⊢
      split at hnull
      · rename_i hstub
        rw [if_pos hstub]
        split at hnull
        · rename_i hnone
          rcases hl.half_linked (by simp [hpc]) hnone with hchain | hpush
          · left
            have husers := hl.users
            rw [hchain, hstub] at husers
            simpa [MpscQueue.retNull] using husers.symm
          · exact .inr (.inl hpush)
        · rename_i next hnext
          rw [hpc] at hpop
          simp [hstub, hstub ▸ hnext] at hpop
      · rename_i hstub
        split at hnull
        · rename_i hnone
          rw [hpc] at hpop
          simp [hstub, hnone] at hpop
        · simp [MpscQueue.retHead] at hnull
  | second =>
      rw [hpc] at hnull hpop
      dsimp only at hnull hpop
      split at hnull
      · rename_i hnone
        simp [hnone] at hpop
      · simp [MpscQueue.retHead] at hnull
  | loadTail =>
      rw [hpc] at hpop
      dsimp only at hpop
      split at hpop
      · simp at hpop
      · rename_i htail
        exact .inr (.inr ⟨rfl, htail⟩)
  | last =>
      rw [hpc] at hnull
      dsimp only at hnull
      split at hnull
      · rename_i hnone
        rcases hl.half_linked (by simp [hpc]) hnone with hchain | hpush
        · have hstub := hh.relinked hpc
          rw [hchain, List.mem_singleton] at hstub
          exact absurd hstub.symm (hh.head (by rw [hpc]; simp))
        · exact .inr (.inl hpush)
      · simp [MpscQueue.retHead] at hnull
  | _ =>
      rw [hpc] at hpop
      simp at hpop

end Null

/-- What the queue promises in a state.  A pop that runs while no push is between its
two steps returns null exactly when every pushed node has been returned, and then
`empty_relaxed` tells whether more are there. -/
structure Delivers (w : System) : Prop where
  order : w.shared.returned <+: w.shared.pushed.map .node
  stubOnce : ∃ chain, Linked w chain ∧ (w.shared.pop ∈ [.storeStub, .exchange] → .stub ∉ chain)
  drains : (∀ t a n, w.own t ≠ .link a n) → w.shared.pop = .idle →
    (w.shared.popAlone.result = none ↔ w.shared.returned = w.shared.pushed.map .node) ∧
    (w.shared.popAlone.emptyRelaxed = true ↔
      w.shared.popAlone.returned = w.shared.popAlone.pushed.map .node)

/-- In every interleaving each push is answered by one pop, in the order of the
exchanges of `tail_`. -/
theorem delivers_of_runs {w : System} (h : Runs w) : Delivers w := by
  obtain ⟨chain, hl, hh⟩ := runs_sound h
  refine ⟨⟨_, hl.users.symm⟩, ⟨chain, hl, hh.stub⟩, fun hpush hpop => ?_⟩
  have hall : w.shared.returned = w.shared.pushed.map .node ↔ chain.filter (· ≠ .stub) = [] := by
    rw [hl.users]
    exact List.self_eq_append_right
  rcases hl.popAlone hpush hpop with ⟨hnil, hnull⟩ | ⟨n, rest, hcons, hpopped, hempty⟩
  · have hdone := hall.mpr hnil
    refine ⟨?_, ?_⟩
    · rw [hnull]
      exact ⟨fun _ => hdone, fun _ => rfl⟩
    · rw [hnull]
      refine ⟨fun _ => hdone, fun _ => ?_⟩
      -- only the stub is left
      have hstub : ∀ a ∈ chain, a = .stub := by
        intro a ha
        simpa using List.filter_eq_nil_iff.mp hnil a ha
      have hhead := hstub _ (List.mem_of_head? hl.first)
      have htail := hstub _ hl.tail_mem
      simp [MpscQueue.emptyRelaxed, MpscQueue.retNull, hhead, htail]
  · refine ⟨?_, ?_⟩
    · rw [hpopped.result, hall, hcons]
      simp
    · rw [hempty, hpopped.returned, hpopped.pushed, hl.users, hcons]
      simp

/-- Thread 3 pushes node 5, and the owner pops it while thread 4 is in its push. -/
theorem oneNode_delivers :
    ∃ w, Runs w ∧ w.shared.pushed = [5] ∧ w.shared.returned = [.node 5] ∧
      w.own 4 = .exchange 6 ∧ Delivers w := by
  have h0 : Runs ⟨.new, fun _ => .idle⟩ := .start
  have h1 := h0.step (.push 3 5 rfl rfl)
  have h2 := h1.step (.exchange 3 5 rfl)
  have h3 := h2.step (.link 3 5 .stub rfl)
  have h4 := h3.step (.push 4 6 rfl rfl)
  have h5 := h4.step (.pop rfl)
  have h6 := h5.step (.popStep nofun)
  have h7 := h6.step (.popStep nofun)
  have h8 := h7.step (.popStep nofun)
  have h9 := h8.step (.popStep nofun)
  have h10 := h9.step (.popStep nofun)
  have h11 := h10.step (.popStep nofun)
  have h12 := h11.step (.popStep nofun)
  exact ⟨_, h12, rfl, rfl, rfl, delivers_of_runs h12⟩

end Uvent.Queue.Intrusive
