import Uvent.Lib.Interleave
import Uvent.Lib.Lap

/-!
# `MPMCQueue` used by any number of threads

Every atomic access of `do_enqueue` and `try_dequeue` is one step, and so are the
beginning and the end of the construction of an element in its cell, the move out of it
and its destruction.  The counters do not wrap around, and a cell is found by the
remainder of the position: `mask_` is `cap_ - 1` for a power of two.

The queue also keeps, for every ticket of either counter, who won it, and for what
element, and what was returned for it.
-/

namespace Uvent.Queue.Mpmc

open Uvent.Lib

inductive Slot (α : Type) where
  | raw
  | building
  | full (v : α)
  | moved
  deriving DecidableEq, Repr

structure Cell (α : Type) where
  seq : Nat
  storage : Slot α

structure Ring (α : Type) where
  cells : Nat → Cell α
  enqPos : Nat
  deqPos : Nat
  put : Nat → List (Nat × α)
  takers : Nat → List Nat
  returned : Nat → List (Nat × Option α)

def Ring.new {α : Type} : Ring α :=
  ⟨fun i => ⟨i, .raw⟩, 0, 0, fun _ => [], fun _ => [], fun _ => []⟩

/-- What a call has returned; `taken none` is an element that was never built. -/
inductive Result (α : Type) where
  | none
  | enqueued (ok : Bool)
  | empty
  | taken (out : Option α)
  deriving DecidableEq, Repr

/-- Where a thread is; outside of the queue it has the result of its last call. -/
inductive Pc (α : Type) where
  | ret (r : Result α)
  | loadEnq (v : α)
  | enqSeq (v : α) (pos : Nat)
  | casEnq (v : α) (pos : Nat)
  | construct (v : α) (pos : Nat)
  | built (v : α) (pos : Nat)
  | publish (v : α) (pos : Nat)
  | loadDeq
  | deqSeq (pos : Nat)
  | casDeq (pos : Nat)
  | move (pos : Nat)
  | destroy (pos : Nat) (out : Option α)
  | release (pos : Nat) (out : Option α)

section Operations

variable {α : Type} (cap : Nat)

namespace Ring

def cell (q : Ring α) (pos : Nat) : Cell α := q.cells (pos % cap)

def setSeq (q : Ring α) (pos seq : Nat) : Ring α :=
  { q with cells := Function.update q.cells (pos % cap) { q.cell cap pos with seq := seq } }

def setStorage (q : Ring α) (pos : Nat) (storage : Slot α) : Ring α :=
  { q with cells := Function.update q.cells (pos % cap) { q.cell cap pos with storage := storage } }

/-- The compare-exchange of `enq_pos_` by thread `t`. -/
def winEnq (q : Ring α) (t : Nat) (v : α) (pos : Nat) : Ring α :=
  { q with
    enqPos := pos + 1,
    put := Function.update q.put pos (q.put pos ++ [(t, v)]) }

def winDeq (q : Ring α) (t pos : Nat) : Ring α :=
  { q with
    deqPos := pos + 1,
    takers := Function.update q.takers pos (q.takers pos ++ [t]) }

def return_ (q : Ring α) (t pos : Nat) (out : Option α) : Ring α :=
  { q with returned := Function.update q.returned pos (q.returned pos ++ [(t, out)]) }

end Ring

def Slot.value : Slot α → Option α
  | .full v => some v
  | _ => none

/-- One step of thread `t`.  `spurious` is a weak compare-exchange that fails without
reason; one that fails leaves the current value in `pos`. -/
def exec (t : Nat) (spurious : Bool) (q : Ring α) : Pc α → Ring α × Pc α
  | .ret r => (q, .ret r)
  | .loadEnq v => (q, .enqSeq v q.enqPos)
  | .enqSeq v pos =>
      let seq := (q.cell cap pos).seq
      if seq = pos then (q, .casEnq v pos)
      else if seq < pos then (q, .ret (.enqueued false))
      else (q, .loadEnq v)
  | .casEnq v pos =>
      if q.enqPos = pos ∧ spurious = false then (q.winEnq t v pos, .construct v pos)
      else (q, .enqSeq v q.enqPos)
  | .construct v pos => (q.setStorage cap pos .building, .built v pos)
  | .built v pos => (q.setStorage cap pos (.full v), .publish v pos)
  | .publish _ pos => (q.setSeq cap pos (pos + 1), .ret (.enqueued true))
  | .loadDeq => (q, .deqSeq q.deqPos)
  | .deqSeq pos =>
      let seq := (q.cell cap pos).seq
      if seq = pos + 1 then (q, .casDeq pos)
      else if seq < pos + 1 then (q, .ret .empty)
      else (q, .loadDeq)
  | .casDeq pos =>
      if q.deqPos = pos ∧ spurious = false then (q.winDeq t pos, .move pos)
      else (q, .deqSeq q.deqPos)
  | .move pos => (q.setStorage cap pos .moved, .destroy pos (q.cell cap pos).storage.value)
  | .destroy pos out => (q.setStorage cap pos .raw, .release pos out)
  | .release pos out => ((q.setSeq cap pos (pos + cap)).return_ t pos out, .ret (.taken out))

/-- `try_enqueue`, `emplace` and the rounds of `try_enqueue_bulk` are the one call,
`try_dequeue` and those of `try_dequeue_bulk` the other. -/
inductive Call (α : Type) where
  | tryEnqueue (v : α)
  | tryDequeue

def Call.start : Call α → Pc α
  | .tryEnqueue v => .loadEnq v
  | .tryDequeue => .loadDeq

def Pc.busy : Pc α → Bool
  | .ret _ => false
  | _ => true

inductive Step (t : Nat) (q : Ring α) : Pc α → Ring α → Pc α → Prop where
  | call (r : Result α) (c : Call α) : Step t q (.ret r) q c.start
  | run (spurious : Bool) (pc : Pc α) (busy : pc.busy = true) :
      Step t q pc (exec cap t spurious q pc).1 (exec cap t spurious q pc).2

end Operations

abbrev Runs {α : Type} (cap : Nat) (w : World Nat (Ring α) (Pc α)) : Prop :=
  Interleaved (Step cap) Ring.new (.ret .none) w

/-! ### The tickets -/

inductive PutPhase where
  | won
  | building
  | built
  deriving DecidableEq, Repr

inductive TakePhase where
  | won
  | moved
  | destroyed
  deriving DecidableEq, Repr

inductive Stage (α : Type) where
  | unclaimed
  | putting (t : Nat) (v : α) (phase : PutPhase)
  | published (t : Nat) (v : α)
  | taking (t : Nat) (v : α) (c : Nat) (phase : TakePhase)
  | returned (t : Nat) (v : α) (c : Nat)

namespace Stage

variable {α : Type}

def put : Stage α → List (Nat × α)
  | .unclaimed => []
  | .putting t v _ | .published t v | .taking t v _ _ | .returned t v _ => [(t, v)]

def takers : Stage α → List Nat
  | .taking _ _ c _ | .returned _ _ c => [c]
  | _ => []

def answers : Stage α → List (Nat × Option α)
  | .returned _ v c => [(c, some v)]
  | _ => []

def isReturned : Stage α → Bool
  | .returned .. => true
  | _ => false

def isOut : Stage α → Bool
  | .unclaimed | .putting .. => false
  | _ => true

def cell (pos : Nat) : Stage α → Cell α
  | .unclaimed | .putting _ _ .won => ⟨pos, .raw⟩
  | .putting _ _ .building => ⟨pos, .building⟩
  | .putting _ v .built => ⟨pos, .full v⟩
  | .published _ v | .taking _ v _ .won => ⟨pos + 1, .full v⟩
  | .taking _ _ _ .moved => ⟨pos + 1, .moved⟩
  | .taking _ _ _ .destroyed | .returned .. => ⟨pos + 1, .raw⟩

def work (pos : Nat) : Stage α → Option (Nat × Pc α)
  | .putting t v .won => some (t, .construct v pos)
  | .putting t v .building => some (t, .built v pos)
  | .putting t v .built => some (t, .publish v pos)
  | .taking _ _ c .won => some (c, .move pos)
  | .taking _ v c .moved => some (c, .destroy pos (some v))
  | .taking _ v c .destroyed => some (c, .release pos (some v))
  | _ => none

end Stage

def Pc.ticket {α : Type} : Pc α → Option Nat
  | .construct _ pos | .built _ pos | .publish _ pos | .move pos | .destroy pos _
  | .release pos _ => some pos
  | _ => none

section Invariant

variable {α : Type} (cap : Nat) (stage : Nat → Stage α)

structure Turn (p : Nat) : Prop where
  before : ∀ k, k % cap = p % cap → k < p → (stage k).isReturned = true
  after : ∀ k, k % cap = p % cap → p < k → stage k = .unclaimed
  now : (stage p).isReturned = false

structure Fits (q : Ring α) : Prop where
  enq : ∀ k, k < q.enqPos ↔ stage k ≠ .unclaimed
  deq : ∀ k, k < q.deqPos ↔ (stage k).takers ≠ []
  put : ∀ k, q.put k = (stage k).put
  takers : ∀ k, q.takers k = (stage k).takers
  returned : ∀ k, q.returned k = (stage k).answers
  cells : ∀ i, i < cap → ∃ p, p % cap = i ∧ Turn cap stage p ∧ q.cells i = (stage p).cell p

def Seen : Pc α → Prop
  | .casEnq _ pos => ∀ k, k % cap = pos % cap → k < pos → (stage k).isReturned = true
  | .casDeq pos => (stage pos).isOut = true
  | _ => True

structure Holds (w : World Nat (Ring α) (Pc α)) : Prop where
  fits : Fits cap stage w.shared
  held : ∀ t k, (w.own t).ticket = some k → (stage k).work k = some (t, w.own t)
  busy : ∀ k t pc, (stage k).work k = some (t, pc) → w.own t = pc
  seen : ∀ t, Seen cap stage (w.own t)

end Invariant

section Facts

variable {α : Type} {cap : Nat} {stage : Nat → Stage α} {q : Ring α} {w : World Nat (Ring α) (Pc α)}
  {t pos : Nat} {S : Stage α} {pc : Pc α}

theorem Stage.ticket_of_work {k : Nat} (h : S.work k = some (t, pc)) : pc.ticket = some k := by
  match S with
  | .putting _ _ .won | .putting _ _ .building | .putting _ _ .built
  | .taking _ _ _ .won | .taking _ _ _ .moved | .taking _ _ _ .destroyed =>
    cases h
    rfl

theorem Stage.answers_of_open (h : S.isReturned = false) : S.answers = [] := by
  match S with
  | .unclaimed | .putting .. | .published .. | .taking .. => rfl
  | .returned .. => cases h

theorem Stage.put_of_claimed (h : S ≠ .unclaimed) : ∃ t v, S.put = [(t, v)] := by
  match S with
  | .unclaimed => exact absurd rfl h
  | .putting t v _ | .published t v | .taking t v _ _ | .returned t v _ => exact ⟨t, v, rfl⟩

theorem Stage.takers_of_ne_nil (h : S.takers ≠ []) : ∃ c, S.takers = [c] := by
  match S with
  | .unclaimed | .putting .. | .published .. => exact absurd rfl h
  | .taking _ _ c _ | .returned _ _ c => exact ⟨c, rfl⟩

theorem Stage.answers_of_takers (h : S.takers = []) : S.answers = [] := by
  match S with
  | .unclaimed | .putting .. | .published .. => rfl
  | .taking .. | .returned .. => cases h

theorem Stage.of_work_construct {v : α} (h : S.work pos = some (t, .construct v pos)) :
    S = .putting t v .won := by
  match S with
  | .putting _ _ .won => cases h; rfl

theorem Stage.of_work_built {v : α} (h : S.work pos = some (t, .built v pos)) :
    S = .putting t v .building := by
  match S with
  | .putting _ _ .building => cases h; rfl

theorem Stage.of_work_publish {v : α} (h : S.work pos = some (t, .publish v pos)) :
    S = .putting t v .built := by
  match S with
  | .putting _ _ .built => cases h; rfl

theorem Stage.of_work_move (h : S.work pos = some (t, .move pos)) :
    ∃ p v, S = .taking p v t .won := by
  match S with
  | .taking p v _ .won => cases h; exact ⟨p, v, rfl⟩

theorem Stage.of_work_destroy {out : Option α} (h : S.work pos = some (t, .destroy pos out)) :
    ∃ p v, out = some v ∧ S = .taking p v t .moved := by
  match S with
  | .taking p v _ .moved => cases h; exact ⟨p, v, rfl, rfl⟩

theorem Stage.of_work_release {out : Option α} (h : S.work pos = some (t, .release pos out)) :
    ∃ p v, out = some v ∧ S = .taking p v t .destroyed := by
  match S with
  | .taking p v _ .destroyed => cases h; exact ⟨p, v, rfl, rfl⟩

/-- A ticket that is claimed and not returned has its turn. -/
theorem Fits.turn (h : Fits cap stage q) (hcap : 0 < cap) (hclaimed : stage pos ≠ .unclaimed)
    (hopen : (stage pos).isReturned = false) :
    Turn cap stage pos ∧ q.cell cap pos = (stage pos).cell pos := by
  obtain ⟨p, hp, hturn, hcell⟩ := h.cells (pos % cap) (Nat.mod_lt _ hcap)
  rcases Nat.lt_trichotomy pos p with hlt | rfl | hgt
  · rw [hturn.before pos hp.symm hlt] at hopen
    cases hopen
  · exact ⟨hturn, hcell⟩
  · exact absurd (hturn.after pos hp.symm hgt) hclaimed

/-- The sequence of a cell that has its turn tells its ticket from every other of the
cell. -/
theorem Stage.cell_seq (S : Stage α) (p : Nat) : (S.cell p).seq = p ∨ (S.cell p).seq = p + 1 := by
  match S with
  | .unclaimed | .putting _ _ .won | .putting _ _ .building | .putting _ _ .built => exact .inl rfl
  | .published .. | .taking _ _ _ .won | .taking _ _ _ .moved | .taking _ _ _ .destroyed
  | .returned .. => exact .inr rfl

theorem Stage.isOut_of_seq {p : Nat} (h : (S.cell p).seq = p + 1) : S.isOut = true := by
  match S with
  | .unclaimed | .putting _ _ .won | .putting _ _ .building | .putting _ _ .built =>
    simp [Stage.cell] at h
  | .published .. | .taking .. | .returned .. => rfl

theorem mod_ne_succ (hcap : 2 ≤ cap) (p : Nat) : (p + 1) % cap ≠ p % cap := by
  intro h
  exact Lap.mod_ne_of_lt_lap (Nat.lt_succ_self p) (by omega) h.symm

/-- A producer reads its position in the sequence: the earlier tickets of the cell are
done with. -/
theorem Fits.seen_enq (h : Fits cap stage q) (hcap : 2 ≤ cap) (v : α)
    (hseq : (q.cell cap pos).seq = pos) : Seen cap stage (.casEnq v pos) := by
  obtain ⟨p, hp, hturn, hcell⟩ := h.cells (pos % cap) (Nat.mod_lt _ (by omega))
  have hseq' : ((stage p).cell p).seq = pos := by rw [← hcell]; exact hseq
  obtain hp' | hp' := (stage p).cell_seq p
  · have heq : p = pos := hp'.symm.trans hseq'
    exact heq ▸ hturn.before
  · have heq : p + 1 = pos := hp'.symm.trans hseq'
    exact absurd (heq ▸ hp).symm (mod_ne_succ hcap p)

theorem Fits.seen_deq (h : Fits cap stage q) (hcap : 2 ≤ cap)
    (hseq : (q.cell cap pos).seq = pos + 1) : Seen cap stage (.casDeq pos : Pc α) := by
  obtain ⟨p, hp, hturn, hcell⟩ := h.cells (pos % cap) (Nat.mod_lt _ (by omega))
  have hseq' : ((stage p).cell p).seq = pos + 1 := by rw [← hcell]; exact hseq
  obtain hp' | hp' := (stage p).cell_seq p
  · have heq : p = pos + 1 := hp'.symm.trans hseq'
    rw [heq] at hp
    exact absurd hp (mod_ne_succ hcap pos)
  · have heq : p = pos := by omega
    rw [heq] at hseq'
    exact Stage.isOut_of_seq hseq'

end Facts

/-! ### The steps -/

section Steps

variable {α : Type} {cap : Nat} {stage : Nat → Stage α} {q q' : Ring α}
  {w : World Nat (Ring α) (Pc α)} {t pos p : Nat} {S S' : Stage α} {pc pc' : Pc α}

theorem Turn.of_ne (h : Turn cap stage p) (hne : p % cap ≠ pos % cap) :
    Turn cap (Function.update stage pos S') p := by
  have hother : ∀ k, k % cap = p % cap → Function.update stage pos S' k = stage k := by
    intro k hk
    apply Function.update_of_ne
    rintro rfl
    exact hne hk.symm
  refine ⟨fun k hk hlt => ?_, fun k hk hlt => ?_, ?_⟩
  · rw [hother k hk]
    exact h.before k hk hlt
  · rw [hother k hk]
    exact h.after k hk hlt
  · rw [hother p rfl]
    exact h.now

theorem Turn.self (h : Turn cap stage pos) (hS : S'.isReturned = false) :
    Turn cap (Function.update stage pos S') pos := by
  refine ⟨fun k hk hlt => ?_, fun k hk hlt => ?_, ?_⟩
  · rw [Function.update_of_ne (by omega)]
    exact h.before k hk hlt
  · rw [Function.update_of_ne (by omega)]
    exact h.after k hk hlt
  · rw [Function.update_self]
    exact hS

/-- The turn passes to the ticket of the next lap. -/
theorem Turn.next (h : Turn cap stage pos) (hcap : 0 < cap) (hS : S'.isReturned = true) :
    Turn cap (Function.update stage pos S') (pos + cap) := by
  have hmod : (pos + cap) % cap = pos % cap := Nat.add_mod_right ..
  refine ⟨fun k hk hlt => ?_, fun k hk hlt => ?_, ?_⟩
  · rcases Nat.lt_trichotomy k pos with hless | rfl | hmore
    · rw [Function.update_of_ne (by omega)]
      exact h.before k (hk.trans hmod) hless
    · rw [Function.update_self]
      exact hS
    · exact absurd (hk.trans hmod).symm (Lap.mod_ne_of_lt_lap hmore hlt)
  · rw [Function.update_of_ne (by omega)]
    exact h.after k (hk.trans hmod) (by omega)
  · rw [Function.update_of_ne (by omega), h.after (pos + cap) hmod (by omega)]
    rfl

theorem Fits.cells_self (h : Fits cap stage q) (hturn : Turn cap stage pos)
    (hS : S'.isReturned = false) (hcell : q'.cells (pos % cap) = S'.cell pos)
    (hother : ∀ i, i ≠ pos % cap → q'.cells i = q.cells i) (i : Nat) (hi : i < cap) :
    ∃ p, p % cap = i ∧ Turn cap (Function.update stage pos S') p ∧
      q'.cells i = (Function.update stage pos S' p).cell p := by
  by_cases hpos : i = pos % cap
  · subst hpos
    exact ⟨pos, rfl, hturn.self hS, by rw [Function.update_self, hcell]⟩
  · obtain ⟨p, hp, hturn', hcell'⟩ := h.cells i hi
    have hne : p % cap ≠ pos % cap := hp ▸ hpos
    refine ⟨p, hp, hturn'.of_ne hne, ?_⟩
    rw [hother i hpos, hcell', Function.update_of_ne (by rintro rfl; exact hne rfl)]

theorem update_log {β : Type} {log : Nat → β} {f : Stage α → β} (h : ∀ k, log k = f (stage k))
    (b : β) (hb : b = f S') (k : Nat) :
    Function.update log pos b k = f (Function.update stage pos S' k) := by
  by_cases hk : k = pos
  · subst hk
    rw [Function.update_self, Function.update_self, hb]
  · rw [Function.update_of_ne hk, Function.update_of_ne hk, h k]

theorem keep_log {β : Type} {log : Nat → β} {f : Stage α → β} (h : ∀ k, log k = f (stage k))
    (hS : f S' = f (stage pos)) (k : Nat) : log k = f (Function.update stage pos S' k) := by
  by_cases hk : k = pos
  · subst hk
    rw [Function.update_self, h k, hS]
  · rw [Function.update_of_ne hk, h k]

theorem keep_counter {n : Nat} {f : Stage α → Prop} (h : ∀ k, k < n ↔ f (stage k))
    (hS : f S' ↔ f (stage pos)) (k : Nat) : k < n ↔ f (Function.update stage pos S' k) := by
  by_cases hk : k = pos
  · subst hk
    rw [Function.update_self, h k, hS]
  · rw [Function.update_of_ne hk, h k]

/-- The counter wins the ticket at which it stands. -/
theorem win_counter {f : Stage α → Prop} (h : ∀ k, k < pos ↔ f (stage k)) (hS : f S') (k : Nat) :
    k < pos + 1 ↔ f (Function.update stage pos S' k) := by
  by_cases hk : k = pos
  · subst hk
    rw [Function.update_self]
    exact iff_of_true (Nat.lt_succ_self k) hS
  · rw [Function.update_of_ne hk, ← h k]
    omega

theorem Fits.write (h : Fits cap stage q) (hturn : Turn cap stage pos)
    (hold : stage pos ≠ .unclaimed) (hnew : S' ≠ .unclaimed) (hput : S'.put = (stage pos).put)
    (htakers : S'.takers = (stage pos).takers) (hopen : S'.isReturned = false)
    (hanswers : S'.answers = (stage pos).answers) :
    Fits cap (Function.update stage pos S')
      { q with cells := Function.update q.cells (pos % cap) (S'.cell pos) } where
  enq := keep_counter h.enq (f := (· ≠ .unclaimed)) (iff_of_true hnew hold)
  deq := keep_counter h.deq (f := (·.takers ≠ [])) (by rw [htakers])
  put := keep_log h.put hput
  takers := keep_log h.takers htakers
  returned := keep_log h.returned hanswers
  cells := h.cells_self hturn hopen (Function.update_self ..)
    fun _ hi => Function.update_of_ne hi ..

theorem Holds.go (h : Holds cap stage w) (hold : (w.own t).ticket = none)
    (hnew : pc'.ticket = none) (hseen : Seen cap stage pc') :
    Holds cap stage ⟨w.shared, Function.update w.own t pc'⟩ := by
  refine ⟨h.fits, fun t' k hk => ?_, fun k t' pc hwork => ?_, fun t' => ?_⟩
  · by_cases ht : t' = t
    · subst ht
      simp only [Function.update_self, hnew] at hk
      cases hk
    · simp only [Function.update_of_ne ht] at hk ⊢
      exact h.held t' k hk
  · have hpc := h.busy k t' pc hwork
    by_cases ht : t' = t
    · subst ht
      rw [hpc, Stage.ticket_of_work hwork] at hold
      cases hold
    · show Function.update w.own t pc' t' = pc
      rw [Function.update_of_ne ht]
      exact hpc
  · by_cases ht : t' = t
    · subst ht
      simpa using hseen
    · simpa [Function.update_of_ne ht] using h.seen t'

theorem Seen.advance (h : Seen cap stage pc) (hopen : (stage pos).isReturned = false)
    (hout : (stage pos).isOut = true → S'.isOut = true) :
    Seen cap (Function.update stage pos S') pc := by
  match pc with
  | .casEnq v p =>
    intro k hk hlt
    have hdone := h k hk hlt
    rw [Function.update_of_ne]
    · exact hdone
    · rintro rfl
      rw [hdone] at hopen
      cases hopen
  | .casDeq p =>
    show (Function.update stage pos S' p).isOut = true
    by_cases hp : p = pos
    · subst hp
      rw [Function.update_self]
      exact hout h
    · rw [Function.update_of_ne hp]
      exact h
  | .ret _ | .loadEnq _ | .enqSeq _ _ | .construct _ _ | .built _ _ | .publish _ _ | .loadDeq
  | .deqSeq _ | .move _ | .destroy _ _ | .release _ _ => exact trivial

/-- The ticket at `pos` moves on, by the thread that is at work on it or that wins it. -/
theorem Holds.advance (h : Holds cap stage w) (hfits : Fits cap (Function.update stage pos S') q')
    (hopen : (stage pos).isReturned = false) (hout : (stage pos).isOut = true → S'.isOut = true)
    (hmine : (w.own t).ticket = none ∨ (w.own t).ticket = some pos)
    (hfree : ∀ t' pc, (stage pos).work pos = some (t', pc) → t' = t)
    (hwork : S'.work pos = some (t, pc') ∨ S'.work pos = none ∧ pc'.ticket = none)
    (hseen : Seen cap (Function.update stage pos S') pc') :
    Holds cap (Function.update stage pos S') ⟨q', Function.update w.own t pc'⟩ := by
  have hother : ∀ k pc, k ≠ pos → (stage k).work k ≠ some (t, pc) := by
    intro k pc hk hw
    have hticket := Stage.ticket_of_work hw
    rw [← h.busy k t pc hw] at hticket
    obtain hnone | hsome := hmine
    · rw [hnone] at hticket
      cases hticket
    · rw [hsome] at hticket
      exact hk (Option.some.inj hticket).symm
  refine ⟨hfits, fun t' k hk => ?_, fun k t' pc hw => ?_, fun t' => ?_⟩
  · by_cases ht : t' = t
    · subst ht
      simp only [Function.update_self] at hk ⊢
      obtain hwork | ⟨-, hnone⟩ := hwork
      · have hkpos : k = pos := Option.some.inj (hk.symm.trans (Stage.ticket_of_work hwork))
        rw [hkpos, Function.update_self]
        exact hwork
      · rw [hnone] at hk
        cases hk
    · simp only [Function.update_of_ne ht] at hk ⊢
      have hheld := h.held t' k hk
      rw [Function.update_of_ne]
      · exact hheld
      · rintro rfl
        exact ht (hfree _ _ hheld)
  · show Function.update w.own t pc' t' = pc
    by_cases hkpos : k = pos
    · rw [hkpos, Function.update_self] at hw
      obtain hwork | ⟨hnone, -⟩ := hwork
      · obtain ⟨rfl, rfl⟩ : t = t' ∧ pc' = pc := by simpa using hwork.symm.trans hw
        exact Function.update_self ..
      · rw [hnone] at hw
        cases hw
    · rw [Function.update_of_ne hkpos] at hw
      have ht : t' ≠ t := by
        rintro rfl
        exact hother k pc hkpos hw
      rw [Function.update_of_ne ht]
      exact h.busy k t' pc hw
  · by_cases ht : t' = t
    · subst ht
      simpa using hseen
    · simpa [Function.update_of_ne ht] using (h.seen t').advance hopen hout

theorem Holds.winEnq (h : Holds cap stage w) (hcap : 0 < cap) (v : α)
    (hpc : w.own t = .casEnq v pos) (hpos : w.shared.enqPos = pos) :
    ∃ stage', Holds cap stage' ⟨w.shared.winEnq t v pos, Function.update w.own t (.construct v pos)⟩ := by
  have hseen : Seen cap stage (.casEnq v pos) := hpc ▸ h.seen t
  have hfree : stage pos = .unclaimed := by
    by_contra hclaimed
    exact absurd ((h.fits.enq pos).mpr hclaimed) (by omega)
  have hnew : ∀ k, pos ≤ k → stage k = .unclaimed := by
    intro k hk
    by_contra hclaimed
    exact absurd ((h.fits.enq k).mpr hclaimed) (by omega)
  have hturn : Turn cap stage pos :=
    ⟨hseen, fun k _ hk => hnew k hk.le, by rw [hfree]; rfl⟩
  have hcell : w.shared.cells (pos % cap) = ⟨pos, .raw⟩ := by
    obtain ⟨p, hp, hturn', hcell⟩ := h.fits.cells (pos % cap) (Nat.mod_lt _ hcap)
    rcases Nat.lt_trichotomy p pos with hlt | rfl | hgt
    · have hdone := hseen p hp hlt
      rw [hturn'.now] at hdone
      cases hdone
    · rw [hcell, hfree]
      rfl
    · have hdone := hturn'.before pos hp.symm hgt
      rw [hfree] at hdone
      cases hdone
  refine ⟨Function.update stage pos (.putting t v .won), h.advance ?_ ?_ ?_ ?_ ?_ ?_ trivial⟩
  · refine ⟨?_, ?_, ?_, ?_, ?_, ?_⟩
    · exact win_counter (f := (· ≠ .unclaimed)) (hpos ▸ h.fits.enq) nofun
    · exact keep_counter h.fits.deq (f := (·.takers ≠ [])) (by rw [hfree]; rfl)
    · exact update_log h.fits.put _ (by rw [h.fits.put pos, hfree]; rfl)
    · exact keep_log h.fits.takers (by rw [hfree]; rfl)
    · exact keep_log h.fits.returned (by rw [hfree]; rfl)
    · exact h.fits.cells_self hturn rfl hcell fun _ _ => rfl
  · rw [hfree]; rfl
  · rw [hfree]; nofun
  · rw [hpc]; exact .inl rfl
  · rw [hfree]; nofun
  · exact .inl rfl

theorem Holds.winDeq (h : Holds cap stage w) (hcap : 0 < cap) (hpc : w.own t = .casDeq pos)
    (hpos : w.shared.deqPos = pos) :
    ∃ stage', Holds cap stage' ⟨w.shared.winDeq t pos, Function.update w.own t (.move pos)⟩ := by
  have hout : (stage pos).isOut = true := by
    have hseen := h.seen t
    rw [hpc] at hseen
    exact hseen
  have hnone : ¬ (stage pos).takers ≠ [] := fun htaken =>
    absurd ((h.fits.deq pos).mpr htaken) (by omega)
  obtain ⟨p, v, hstage⟩ : ∃ p v, stage pos = .published p v := by
    match hS : stage pos with
    | .published p v => exact ⟨p, v, rfl⟩
    | .unclaimed | .putting _ _ _ => rw [hS] at hout; cases hout
    | .taking _ _ _ _ | .returned _ _ _ => rw [hS] at hnone; exact absurd nofun hnone
  obtain ⟨hturn, hcell⟩ := h.fits.turn hcap (by rw [hstage]; nofun) (by rw [hstage]; rfl)
  refine ⟨Function.update stage pos (.taking p v t .won), h.advance ?_ ?_ ?_ ?_ ?_ ?_ trivial⟩
  · refine ⟨?_, ?_, ?_, ?_, ?_, ?_⟩
    · exact keep_counter h.fits.enq (f := (· ≠ .unclaimed)) (by rw [hstage]; exact iff_of_true nofun nofun)
    · exact win_counter (f := (·.takers ≠ [])) (hpos ▸ h.fits.deq) nofun
    · exact keep_log h.fits.put (by rw [hstage]; rfl)
    · exact update_log h.fits.takers _ (by rw [h.fits.takers pos, hstage]; rfl)
    · exact keep_log h.fits.returned (by rw [hstage]; rfl)
    · exact h.fits.cells_self hturn rfl (hcell.trans (by rw [hstage]; rfl)) fun _ _ => rfl
  · rw [hstage]; rfl
  · exact fun _ => rfl
  · rw [hpc]; exact .inl rfl
  · rw [hstage]; nofun
  · exact .inl rfl

theorem Holds.write (h : Holds cap stage w) (S' : Stage α) (hcap : 0 < cap) (hticket : (w.own t).ticket = some pos)
    (hold : stage pos = S) (hclaimed : S ≠ .unclaimed) (hopen : S.isReturned = false)
    (hnew : S' ≠ .unclaimed) (hput : S'.put = S.put) (htakers : S'.takers = S.takers)
    (hopen' : S'.isReturned = false) (hout : S.isOut = true → S'.isOut = true)
    (hcells : q' = { w.shared with
      cells := Function.update w.shared.cells (pos % cap) (S'.cell pos) })
    (hwork : S'.work pos = some (t, pc') ∨ S'.work pos = none ∧ pc'.ticket = none)
    (hseen : Seen cap (Function.update stage pos S') pc') :
    ∃ stage', Holds cap stage' ⟨q', Function.update w.own t pc'⟩ := by
  subst hold
  obtain ⟨hturn, -⟩ := h.fits.turn hcap hclaimed hopen
  have hanswers : S'.answers = (stage pos).answers := by
    rw [Stage.answers_of_open hopen, Stage.answers_of_open hopen']
  refine ⟨_, h.advance ?_ hopen hout (.inr hticket) ?_ hwork hseen⟩
  · rw [hcells]
    exact h.fits.write hturn hclaimed hnew hput htakers hopen' hanswers
  · intro t' pc hw
    have hheld := h.held t pos hticket
    rw [hw] at hheld
    exact congrArg Prod.fst (Option.some.inj hheld)

theorem Holds.release (h : Holds cap stage w) (hcap : 0 < cap) {out : Option α}
    (hpc : w.own t = .release pos out) :
    ∃ stage', Holds cap stage' ⟨(w.shared.setSeq cap pos (pos + cap)).return_ t pos out,
      Function.update w.own t (.ret (.taken out))⟩ := by
  have hheld := h.held t pos (by rw [hpc]; rfl)
  rw [hpc] at hheld
  obtain ⟨p, v, rfl, hstage⟩ := Stage.of_work_release hheld
  obtain ⟨hturn, hcell⟩ := h.fits.turn hcap (by rw [hstage]; nofun) (by rw [hstage]; rfl)
  refine ⟨Function.update stage pos (.returned p v t), h.advance ?_ ?_ ?_ ?_ ?_ ?_ trivial⟩
  · refine ⟨?_, ?_, ?_, ?_, ?_, fun i hi => ?_⟩
    · exact keep_counter h.fits.enq (f := (· ≠ .unclaimed)) (by rw [hstage]; exact iff_of_true nofun nofun)
    · exact keep_counter h.fits.deq (f := (·.takers ≠ [])) (by rw [hstage]; rfl)
    · exact keep_log h.fits.put (by rw [hstage]; rfl)
    · exact keep_log h.fits.takers (by rw [hstage]; rfl)
    · exact update_log h.fits.returned _ (by rw [Ring.setSeq, h.fits.returned pos, hstage]; rfl)
    · show ∃ p, p % cap = i ∧ _ ∧ Function.update w.shared.cells (pos % cap)
        { w.shared.cell cap pos with seq := pos + cap } i = _
      by_cases hpos : i = pos % cap
      · subst hpos
        refine ⟨pos + cap, Nat.add_mod_right .., hturn.next hcap rfl, ?_⟩
        rw [Function.update_self, Function.update_of_ne (by omega),
          hturn.after (pos + cap) (Nat.add_mod_right ..) (by omega), hcell, hstage]
        rfl
      · obtain ⟨p', hp, hturn', hcell'⟩ := h.fits.cells i hi
        have hne : p' % cap ≠ pos % cap := hp ▸ hpos
        refine ⟨p', hp, hturn'.of_ne hne, ?_⟩
        rw [Function.update_of_ne hpos, hcell',
          Function.update_of_ne (by rintro rfl; exact hne rfl)]
  · rw [hstage]; rfl
  · exact fun _ => rfl
  · rw [hpc]; exact .inr rfl
  · intro t' pc' hw
    rw [hheld] at hw
    exact (congrArg Prod.fst (Option.some.inj hw)).symm
  · exact .inr ⟨rfl, rfl⟩

theorem Ring.setStorage_eq (q : Ring α) (storage : Slot α) (hcell : q.cell cap pos = S.cell pos)
    (hseq : (S'.cell pos) = ⟨(S.cell pos).seq, storage⟩) :
    q.setStorage cap pos storage =
      { q with cells := Function.update q.cells (pos % cap) (S'.cell pos) } := by
  rw [Ring.setStorage, hcell, hseq]

theorem Ring.setSeq_eq (q : Ring α) (seq : Nat) (hcell : q.cell cap pos = S.cell pos)
    (hseq : (S'.cell pos) = ⟨seq, (S.cell pos).storage⟩) :
    q.setSeq cap pos seq =
      { q with cells := Function.update q.cells (pos % cap) (S'.cell pos) } := by
  rw [Ring.setSeq, hcell, hseq]

theorem Holds.exec (h : Holds cap stage w) (hcap : 2 ≤ cap) (spurious : Bool) (hpc : w.own t = pc) :
    ∃ stage', Holds cap stage' ⟨(exec cap t spurious w.shared pc).1,
      Function.update w.own t (exec cap t spurious w.shared pc).2⟩ := by
  have hpos : 0 < cap := by omega
  -- the thread reads, and moves to a point that has no ticket
  have hgo : ∀ pc', pc.ticket = none → pc'.ticket = none → Seen cap stage pc' →
      ∃ stage', Holds cap stage' ⟨w.shared, Function.update w.own t pc'⟩ := by
    intro pc' hold hnew hseen
    exact ⟨stage, h.go (hpc ▸ hold) hnew hseen⟩
  cases pc with
  | ret r => exact hgo _ rfl rfl trivial
  | loadEnq v => exact hgo _ rfl rfl trivial
  | loadDeq => exact hgo _ rfl rfl trivial
  | enqSeq v pos =>
    simp only [Mpmc.exec]
    split
    · rename_i hseq
      exact hgo _ rfl rfl (h.fits.seen_enq hcap v hseq)
    · split <;> exact hgo _ rfl rfl trivial
  | deqSeq pos =>
    simp only [Mpmc.exec]
    split
    · rename_i hseq
      exact hgo _ rfl rfl (h.fits.seen_deq hcap hseq)
    · split <;> exact hgo _ rfl rfl trivial
  | casEnq v pos =>
    simp only [Mpmc.exec]
    split
    · rename_i hwin
      exact h.winEnq hpos v hpc hwin.1
    · exact hgo _ rfl rfl trivial
  | casDeq pos =>
    simp only [Mpmc.exec]
    split
    · rename_i hwin
      exact h.winDeq hpos hpc hwin.1
    · exact hgo _ rfl rfl trivial
  | construct v pos =>
    have hticket : (w.own t).ticket = some pos := by rw [hpc]; rfl
    have hstage := Stage.of_work_construct (hpc ▸ h.held t pos hticket)
    obtain ⟨-, hcell⟩ := h.fits.turn hpos (by rw [hstage]; nofun) (by rw [hstage]; rfl)
    exact h.write (.putting t v .building) hpos hticket hstage nofun rfl nofun rfl rfl rfl
      nofun (Ring.setStorage_eq _ _ (hstage ▸ hcell) rfl) (.inl rfl) trivial
  | built v pos =>
    have hticket : (w.own t).ticket = some pos := by rw [hpc]; rfl
    have hstage := Stage.of_work_built (hpc ▸ h.held t pos hticket)
    obtain ⟨-, hcell⟩ := h.fits.turn hpos (by rw [hstage]; nofun) (by rw [hstage]; rfl)
    exact h.write (.putting t v .built) hpos hticket hstage nofun rfl nofun rfl rfl rfl
      nofun (Ring.setStorage_eq _ _ (hstage ▸ hcell) rfl) (.inl rfl) trivial
  | publish v pos =>
    have hticket : (w.own t).ticket = some pos := by rw [hpc]; rfl
    have hstage := Stage.of_work_publish (hpc ▸ h.held t pos hticket)
    obtain ⟨-, hcell⟩ := h.fits.turn hpos (by rw [hstage]; nofun) (by rw [hstage]; rfl)
    exact h.write (.published t v) hpos hticket hstage nofun rfl nofun rfl rfl rfl
      nofun (Ring.setSeq_eq _ _ (hstage ▸ hcell) rfl) (.inr ⟨rfl, rfl⟩) trivial
  | move pos =>
    have hticket : (w.own t).ticket = some pos := by rw [hpc]; rfl
    obtain ⟨p, v, hstage⟩ := Stage.of_work_move (hpc ▸ h.held t pos hticket)
    obtain ⟨-, hcell⟩ := h.fits.turn hpos (by rw [hstage]; nofun) (by rw [hstage]; rfl)
    have hvalue : (w.shared.cell cap pos).storage.value = some v := by rw [hcell, hstage]; rfl
    simp only [Mpmc.exec, hvalue]
    exact h.write (.taking p v t .moved) hpos hticket hstage nofun rfl nofun rfl rfl rfl
      (fun _ => rfl) (Ring.setStorage_eq _ _ (hstage ▸ hcell) rfl) (.inl rfl) trivial
  | destroy pos out =>
    have hticket : (w.own t).ticket = some pos := by rw [hpc]; rfl
    obtain ⟨p, v, rfl, hstage⟩ := Stage.of_work_destroy (hpc ▸ h.held t pos hticket)
    obtain ⟨-, hcell⟩ := h.fits.turn hpos (by rw [hstage]; nofun) (by rw [hstage]; rfl)
    exact h.write (.taking p v t .destroyed) hpos hticket hstage nofun rfl nofun rfl rfl rfl
      (fun _ => rfl) (Ring.setStorage_eq _ _ (hstage ▸ hcell) rfl) (.inl rfl) trivial
  | release pos out => exact h.release hpos hpc

end Steps

section Runs

variable {α : Type} {cap : Nat} {w : World Nat (Ring α) (Pc α)}

theorem holds_new :
    Holds cap (fun _ => .unclaimed) (⟨.new, fun _ => .ret .none⟩ : World Nat (Ring α) (Pc α)) where
  fits :=
    { enq := fun k => iff_of_false (Nat.not_lt_zero k) (fun h => h rfl)
      deq := fun k => iff_of_false (Nat.not_lt_zero k) (fun h => h rfl)
      put := fun _ => rfl
      takers := fun _ => rfl
      returned := fun _ => rfl
      cells := by
        intro i hi
        refine ⟨i, Nat.mod_eq_of_lt hi, ⟨fun k hk hlt => ?_, fun _ _ _ => rfl, rfl⟩, rfl⟩
        exact absurd hk (Lap.mod_ne_of_lt_lap hlt (by omega)) }
  held := nofun
  busy := nofun
  seen := fun _ => trivial

theorem holds_of_runs (hcap : 2 ≤ cap) (h : Runs cap w) : ∃ stage, Holds cap stage w := by
  induction h with
  | start => exact ⟨_, holds_new⟩
  | @step w t q pc _ hstep ih =>
    obtain ⟨stage, hholds⟩ := ih
    generalize hpc : w.own t = old at hstep
    cases hstep with
    | call r c =>
      refine ⟨stage, hholds.go (by rw [hpc]; rfl) ?_ ?_⟩
      · cases c <;> rfl
      · cases c <;> exact trivial
    | run spurious _ busy => exact hholds.exec hcap spurious hpc

/-- What the tickets tell: the element of ticket `k` of `enq_pos_` is what the one consumer
of ticket `k` of `deq_pos_` returns, or is about to. -/
structure Exact (cap : Nat) (w : World Nat (Ring α) (Pc α)) : Prop where
  window : w.shared.deqPos ≤ w.shared.enqPos ∧ w.shared.enqPos ≤ w.shared.deqPos + cap
  put : ∀ k, (k < w.shared.enqPos → ∃ t v, w.shared.put k = [(t, v)]) ∧
    (w.shared.enqPos ≤ k → w.shared.put k = [])
  taken : ∀ k, (k < w.shared.deqPos → ∃ c, w.shared.takers k = [c]) ∧
    (w.shared.deqPos ≤ k → w.shared.takers k = [] ∧ w.shared.returned k = [])
  delivered : ∀ k c t v, w.shared.takers k = [c] → w.shared.put k = [(t, v)] →
    w.shared.returned k = [(c, some v)] ∨
      w.shared.returned k = [] ∧ (w.own c).ticket = some k
  construct : ∀ t v pos, w.own t = .construct v pos → (w.shared.cell cap pos).storage = .raw
  read : ∀ c pos, w.own c = .move pos →
    ∃ t v, w.shared.put pos = [(t, v)] ∧ (w.shared.cell cap pos).storage = .full v

variable {stage : Nat → Stage α}

theorem Fits.window {q : Ring α} (h : Fits cap stage q) (hcap : 0 < cap) :
    q.deqPos ≤ q.enqPos ∧ q.enqPos ≤ q.deqPos + cap := by
  constructor
  · by_contra hlt
    have htaken := (h.deq q.enqPos).mp (by omega)
    have hnot := mt (h.enq q.enqPos).mpr (Nat.lt_irrefl _)
    simp only [ne_eq, not_not] at hnot
    rw [hnot] at htaken
    exact htaken rfl
  · by_contra hlt
    have hlate : stage (q.deqPos + cap) ≠ .unclaimed := (h.enq _).mp (by omega)
    have hearly : ¬ (stage q.deqPos).takers ≠ [] := mt (h.deq q.deqPos).mpr (Nat.lt_irrefl _)
    obtain ⟨p, hp, hturn, -⟩ := h.cells (q.deqPos % cap) (Nat.mod_lt _ hcap)
    have hmod : (q.deqPos + cap) % cap = p % cap := (Nat.add_mod_right ..).trans hp.symm
    have hle : q.deqPos + cap ≤ p := by
      by_contra hgt
      exact hlate (hturn.after _ hmod (by omega))
    have hdone := hturn.before q.deqPos hp.symm (by omega)
    generalize stage q.deqPos = S at hearly hdone
    match S with
    | .returned _ _ _ => exact hearly nofun

theorem Fits.delivered {q : Ring α} (h : Fits cap stage q) {k c t : Nat} {v : α}
    (htaker : q.takers k = [c]) (hput : q.put k = [(t, v)]) :
    q.returned k = [(c, some v)] ∨
      q.returned k = [] ∧ ∃ pc, (stage k).work k = some (c, pc) := by
  rw [h.takers k] at htaker
  rw [h.put k] at hput
  rw [h.returned k]
  match hS : stage k with
  | .returned p u d =>
    rw [hS] at htaker hput
    cases htaker
    cases hput
    exact .inl rfl
  | .taking p u d phase =>
    rw [hS] at htaker
    cases htaker
    refine .inr ⟨rfl, ?_⟩
    cases phase <;> exact ⟨_, rfl⟩
  | .unclaimed | .putting .. | .published .. =>
    rw [hS] at htaker
    cases htaker

theorem exact_of_runs (hcap : 2 ≤ cap) (h : Runs cap w) : Exact cap w := by
  obtain ⟨stage, hholds⟩ := holds_of_runs hcap h
  have hfits := hholds.fits
  have hpos : 0 < cap := by omega
  constructor
  case window => exact hfits.window hpos
  case put =>
    intro k
    rw [hfits.put k, hfits.enq k, ← Nat.not_lt, hfits.enq k, not_not]
    constructor
    · exact Stage.put_of_claimed
    · intro hfree
      rw [hfree]
      rfl
  case taken =>
    intro k
    rw [hfits.takers k, hfits.returned k, hfits.deq k, ← Nat.not_lt, hfits.deq k, not_not]
    constructor
    · exact Stage.takers_of_ne_nil
    · exact fun hnone => ⟨hnone, Stage.answers_of_takers hnone⟩
  case delivered =>
    intro k c t v htaker hput
    obtain hdone | ⟨hnone, pc, hwork⟩ := hfits.delivered htaker hput
    · exact .inl hdone
    · refine .inr ⟨hnone, ?_⟩
      rw [hholds.busy k c pc hwork]
      exact Stage.ticket_of_work hwork
  case construct =>
    intro t v pos hpc
    have hheld := hholds.held t pos (by rw [hpc]; rfl)
    have hstage := Stage.of_work_construct (hpc ▸ hheld)
    obtain ⟨-, hcell⟩ := hfits.turn hpos (by rw [hstage]; nofun) (by rw [hstage]; rfl)
    rw [hcell, hstage]
    rfl
  case read =>
    intro c pos hpc
    have hheld := hholds.held c pos (by rw [hpc]; rfl)
    obtain ⟨t, v, hstage⟩ := Stage.of_work_move (hpc ▸ hheld)
    obtain ⟨-, hcell⟩ := hfits.turn hpos (by rw [hstage]; nofun) (by rw [hstage]; rfl)
    refine ⟨t, v, by rw [hfits.put pos, hstage]; rfl, ?_⟩
    rw [hcell, hstage]
    rfl

def move (cap : Nat) (w : World Nat (Ring α) (Pc α)) : Nat × Option (Call α) →
    World Nat (Ring α) (Pc α)
  | (t, some c) => ⟨w.shared, Function.update w.own t c.start⟩
  | (t, none) =>
      ⟨(exec cap t false w.shared (w.own t)).1,
        Function.update w.own t (exec cap t false w.shared (w.own t)).2⟩

theorem runs_call (h : Runs cap w) (t : Nat) (c : Call α) {r : Result α} (hret : w.own t = .ret r) :
    Runs cap (move cap w (t, some c)) :=
  .step h (by rw [hret]; exact .call r c)

theorem runs_exec (h : Runs cap w) (t : Nat) (hbusy : (w.own t).busy = true) :
    Runs cap (move cap w (t, none)) :=
  .step h (.run false _ hbusy)

def handOver : World Nat (Ring Nat) (Pc Nat) :=
  [(0, some (.tryEnqueue 7)), (0, none), (0, none), (0, none), (0, none), (0, none), (0, none),
    (1, some .tryDequeue), (1, none), (1, none), (1, none), (1, none), (1, none),
    (1, none)].foldl (move 2) ⟨Ring.new, fun _ => .ret .none⟩

theorem handOver_exact : handOver.shared.put 0 = [(0, 7)] ∧
    handOver.shared.returned 0 = [(1, some 7)] ∧ Exact 2 handOver := by
  refine ⟨rfl, rfl, exact_of_runs le_rfl ?_⟩
  have hcall := runs_call (Interleaved.start : Runs 2 ⟨Ring.new, fun _ => .ret .none⟩) 0
    (.tryEnqueue 7) rfl
  have hwon := runs_exec (runs_exec (runs_exec hcall 0 rfl) 0 rfl) 0 rfl
  have hput := runs_exec (runs_exec (runs_exec hwon 0 rfl) 0 rfl) 0 rfl
  have htake := runs_call hput 1 .tryDequeue rfl
  have hclaimed := runs_exec (runs_exec (runs_exec htake 1 rfl) 1 rfl) 1 rfl
  exact runs_exec (runs_exec (runs_exec hclaimed 1 rfl) 1 rfl) 1 rfl

end Runs

end Uvent.Queue.Mpmc
