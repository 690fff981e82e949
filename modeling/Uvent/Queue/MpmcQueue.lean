import Uvent.Lib.BitSmear
import Uvent.Lib.Lap
import Mathlib.Tactic.Ring

/-!
# `MPMCQueue` used by one thread

The bounded queue keeps a sequence number in every cell; whether a cell is free
or full for a position is read off the signed difference of the two, modulo
`2^64`.  This module embeds the constructor and every operation as one thread
runs them, and compares them with a list of bounded length.

The loops retry a weak compare-and-swap.  How often it fails spuriously is an
input of each call, and the loops take fuel, so termination is a statement.
-/

namespace Uvent.Queue.MpmcQueue

open Uvent.Lib.BitSmear Uvent.Lib.Lap

abbrev SizeT := BitVec 64

/-- `next_pow2`: round up to a power of two; wraps to `0` above `2^63`. -/
def nextPow2 (x : SizeT) : SizeT :=
  if x ≤ 1 then 1
  else
    let x := x - 1
    let x := x ||| (x >>> 1)
    let x := x ||| (x >>> 2)
    let x := x ||| (x >>> 4)
    let x := x ||| (x >>> 8)
    let x := x ||| (x >>> 16)
    let x := x ||| (x >>> 32)
    x + 1

/-- `storage` is `none` when no object is alive in the cell. -/
structure Cell (α : Type) where
  seq : SizeT
  storage : Option α

structure MPMCQueue (α : Type) where
  cap : SizeT
  mask : SizeT
  cells : Nat → Cell α
  enqPos : SizeT
  deqPos : SizeT

namespace MPMCQueue

variable {α : Type}

/-- The constructor: `next_pow2(capacity_pow2)` cells, cell `i` with sequence `i`. -/
def new (capacityPow2 : SizeT) : MPMCQueue α where
  cap := nextPow2 capacityPow2
  mask := nextPow2 capacityPow2 - 1
  cells i := ⟨BitVec.ofNat 64 i, none⟩
  enqPos := 0
  deqPos := 0

def index (q : MPMCQueue α) (pos : SizeT) : Nat := (pos &&& q.mask).toNat

def setCell (q : MPMCQueue α) (i : Nat) (c : Cell α) : MPMCQueue α :=
  { q with cells := fun j => if j = i then c else q.cells j }

/-- The loop of `do_enqueue`, started at the position last read. -/
def doEnqueueLoop (q : MPMCQueue α) (v : α) : Nat → Nat → SizeT → Option (Bool × MPMCQueue α)
  | 0, _, _ => none
  | fuel + 1, spurious, pos =>
      let c := q.cells (q.index pos)
      let dif := (c.seq - pos).toInt
      if dif = 0 then
        if q.enqPos = pos then
          match spurious with
          | 0 =>
              some (true, { q with enqPos := pos + 1 }.setCell (q.index pos) ⟨pos + 1, some v⟩)
          | spurious + 1 => doEnqueueLoop q v fuel spurious pos
        else doEnqueueLoop q v fuel spurious q.enqPos
      else if dif < 0 then some (false, q)
      else doEnqueueLoop q v fuel spurious q.enqPos

def tryEnqueue (fuel spurious : Nat) (q : MPMCQueue α) (v : α) : Option (Bool × MPMCQueue α) :=
  doEnqueueLoop q v fuel spurious q.enqPos

/-- The loop of `try_dequeue`; the result holds what was moved into `out`. -/
def tryDequeueLoop (q : MPMCQueue α) :
    Nat → Nat → SizeT → Option (Option (Option α) × MPMCQueue α)
  | 0, _, _ => none
  | fuel + 1, spurious, pos =>
      let c := q.cells (q.index pos)
      let dif := (c.seq - (pos + 1)).toInt
      if dif = 0 then
        if q.deqPos = pos then
          match spurious with
          | 0 =>
              some (some c.storage,
                { q with deqPos := pos + 1 }.setCell (q.index pos) ⟨pos + q.cap, none⟩)
          | spurious + 1 => tryDequeueLoop q fuel spurious pos
        else tryDequeueLoop q fuel spurious q.deqPos
      else if dif < 0 then some (none, q)
      else tryDequeueLoop q fuel spurious q.deqPos

def tryDequeue (fuel spurious : Nat) (q : MPMCQueue α) :
    Option (Option (Option α) × MPMCQueue α) :=
  tryDequeueLoop q fuel spurious q.deqPos

/-- `try_enqueue_bulk`; every element comes with its spurious failures. -/
def tryEnqueueBulk (fuel : Nat) (q : MPMCQueue α) : List (α × Nat) → Option (Nat × MPMCQueue α)
  | [] => some (0, q)
  | (v, spurious) :: vs =>
      match tryEnqueue fuel spurious q v with
      | none => none
      | some (false, q') => some (0, q')
      | some (true, q') => (tryEnqueueBulk fuel q' vs).map fun r => (r.1 + 1, r.2)

/-- `try_dequeue_bulk` for as many items as there are entries in the list. -/
def tryDequeueBulk (fuel : Nat) (q : MPMCQueue α) :
    List Nat → Option (List (Option α) × MPMCQueue α)
  | [] => some ([], q)
  | spurious :: rest =>
      match tryDequeue fuel spurious q with
      | none => none
      | some (none, q') => some ([], q')
      | some (some v, q') => (tryDequeueBulk fuel q' rest).map fun r => (v :: r.1, r.2)

def empty (q : MPMCQueue α) : Bool :=
  decide (((q.cells (q.index q.deqPos)).seq - (q.deqPos + 1)).toInt < 0)

def emptyRelaxed (q : MPMCQueue α) : Bool := decide (q.enqPos = q.deqPos)

def sizeRelaxed (q : MPMCQueue α) : SizeT :=
  if q.enqPos - q.deqPos > q.cap then q.cap else q.enqPos - q.deqPos

/-- `size()` rereads `deq_pos_`; with one thread its first round is stable. -/
def size (q : MPMCQueue α) : SizeT := q.sizeRelaxed

def capacity (q : MPMCQueue α) : SizeT := q.cap

end MPMCQueue

/-! ## Calls, and the list they should behave like -/

/-- A call by the one thread; a number is how often the weak compare-and-swap
fails spuriously. -/
inductive Call (α : Type) where
  | tryEnqueue (v : α) (spurious : Nat)
  | tryDequeue (spurious : Nat)
  | tryEnqueueBulk (vs : List (α × Nat))
  | tryDequeueBulk (spurious : List Nat)
  | size
  | sizeRelaxed
  | empty
  | emptyRelaxed

inductive Result (α : Type) where
  | enqueued (ok : Bool)
  | dequeued (out : Option (Option α))
  | count (n : Nat)
  | items (out : List (Option α))
  | flag (b : Bool)
  deriving DecidableEq, Repr

variable {α : Type}

def Call.exec (fuel : Nat) (q : MPMCQueue α) : Call α → Option (Result α × MPMCQueue α)
  | .tryEnqueue v spurious => (q.tryEnqueue fuel spurious v).map fun r => (.enqueued r.1, r.2)
  | .tryDequeue spurious => (q.tryDequeue fuel spurious).map fun r => (.dequeued r.1, r.2)
  | .tryEnqueueBulk vs => (q.tryEnqueueBulk fuel vs).map fun r => (.count r.1, r.2)
  | .tryDequeueBulk ks => (q.tryDequeueBulk fuel ks).map fun r => (.items r.1, r.2)
  | .size => some (.count q.size.toNat, q)
  | .sizeRelaxed => some (.count q.sizeRelaxed.toNat, q)
  | .empty => some (.flag q.empty, q)
  | .emptyRelaxed => some (.flag q.emptyRelaxed, q)

def run (fuel : Nat) (q : MPMCQueue α) : List (Call α) → Option (List (Result α))
  | [] => some []
  | call :: calls =>
      match call.exec fuel q with
      | none => none
      | some (r, q') => (run fuel q' calls).map (r :: ·)

/-- The same call on a list of at most `cap` elements. -/
def Call.spec (cap : Nat) (xs : List α) : Call α → Result α × List α
  | .tryEnqueue v _ =>
      if xs.length = cap then (.enqueued false, xs) else (.enqueued true, xs ++ [v])
  | .tryDequeue _ =>
      match xs with
      | [] => (.dequeued none, [])
      | x :: rest => (.dequeued (some (some x)), rest)
  | .tryEnqueueBulk vs =>
      let taken := (vs.take (cap - xs.length)).map Prod.fst
      (.count taken.length, xs ++ taken)
  | .tryDequeueBulk ks => (.items ((xs.take ks.length).map some), xs.drop ks.length)
  | .size => (.count xs.length, xs)
  | .sizeRelaxed => (.count xs.length, xs)
  | .empty => (.flag xs.isEmpty, xs)
  | .emptyRelaxed => (.flag xs.isEmpty, xs)

def specRun (cap : Nat) (xs : List α) : List (Call α) → List (Result α)
  | [] => []
  | call :: calls => (call.spec cap xs).1 :: specRun cap (call.spec cap xs).2 calls

/-- The queue built with argument `c` answers every sequence of calls as the
bounded list does, and every call returns. -/
def BehavesLikeList (α : Type) (c : SizeT) : Prop :=
  ∀ calls : List (Call α), ∃ enough, ∀ fuel ≥ enough,
    run fuel (MPMCQueue.new c) calls =
      some (specRun (MPMCQueue.new (α := α) c).capacity.toNat [] calls)

/-- The cell array for `c` can be allocated: it has a cell, and its size in
bytes is a `size_t`. -/
def Allocatable (sizeofCell : Nat) (c : SizeT) : Prop :=
  nextPow2 c ≠ 0 ∧ (nextPow2 c).toNat * sizeofCell < 2 ^ 64

instance (sizeofCell : Nat) (c : SizeT) : Decidable (Allocatable sizeofCell c) :=
  inferInstanceAs (Decidable (_ ∧ _))

/-! ## The rounded capacity -/

theorem toNat_orShift (x : SizeT) (j : Nat) :
    (x ||| (x >>> j)).toNat = x.toNat ||| (x.toNat >>> j) := by
  rw [BitVec.toNat_or, BitVec.toNat_ushiftRight]

theorem toNat_sub_one {c : SizeT} (hc : 2 ≤ c.toNat) : (c - 1).toNat = c.toNat - 1 := by
  apply BitVec.toNat_sub_of_le
  rw [BitVec.le_def]
  change 1 ≤ c.toNat
  omega

theorem toNat_nextPow2 {c : SizeT} (hc : 2 ≤ c.toNat) :
    (nextPow2 c).toNat = 2 ^ ((c.toNat - 1).log2 + 1) % 2 ^ 64 := by
  have hgt : ¬c ≤ 1 := by
    rw [BitVec.le_def]
    change ¬c.toNat ≤ 1
    omega
  have hsub := toNat_sub_one hc
  have hx0 : (c - 1).toNat ≠ 0 := by omega
  set L := (c - 1).toNat.log2 + 1 with hL
  have hL64 : L ≤ 64 := by
    have := (Nat.log2_lt hx0).mpr (c - 1).isLt
    omega
  -- one `orShift` per line of the source
  have h1 := topOnes_log2 hx0
  have h2 := h1.orShift (j := 1) (by omega)
  rw [← toNat_orShift] at h2
  have h4 := h2.orShift (j := 2) (by omega)
  rw [← toNat_orShift] at h4
  have h8 := h4.orShift (j := 4) (by omega)
  rw [← toNat_orShift] at h8
  have h16 := h8.orShift (j := 8) (by omega)
  rw [← toNat_orShift] at h16
  have h32 := h16.orShift (j := 16) (by omega)
  rw [← toNat_orShift] at h32
  have h64 := h32.orShift (j := 32) (by omega)
  rw [← toNat_orShift] at h64
  have hsmear := h64.eq_two_pow_sub_one (by omega)
  rw [nextPow2, if_neg hgt, BitVec.toNat_add, hsmear, ← hsub]
  change (2 ^ L - 1 + 1) % 2 ^ 64 = _
  rw [Nat.sub_add_cancel Nat.one_le_two_pow]

/-- Rounding up wraps to `0` above `2^63` and nowhere else. -/
theorem nextPow2_ne_zero_iff {c : SizeT} (hc : 2 ≤ c.toNat) :
    nextPow2 c ≠ 0 ↔ c.toNat ≤ 2 ^ 63 := by
  have hx0 : c.toNat - 1 ≠ 0 := by omega
  have hlt := c.isLt
  have hL : (c.toNat - 1).log2 < 64 := (Nat.log2_lt hx0).mpr (by omega)
  have hzero : nextPow2 c = 0 ↔ 2 ^ ((c.toNat - 1).log2 + 1) % 2 ^ 64 = 0 := by
    rw [← toNat_nextPow2 hc, ← BitVec.toNat_inj]
    rfl
  rw [ne_eq, hzero]
  constructor
  · intro hne
    by_contra hgt
    apply hne
    have hlog : 63 ≤ (c.toNat - 1).log2 := (Nat.le_log2 hx0).mpr (by omega)
    have heq : (c.toNat - 1).log2 = 63 := by omega
    rw [heq]
    exact Nat.mod_self (2 ^ 64)
  · intro hle hmod
    have hlog : (c.toNat - 1).log2 < 63 := (Nat.log2_lt hx0).mpr (by omega)
    have hpow : 2 ^ ((c.toNat - 1).log2 + 1) < 2 ^ 64 :=
      Nat.pow_lt_pow_right (by decide) (by omega)
    rw [Nat.mod_eq_of_lt hpow] at hmod
    exact absurd hmod (Nat.two_pow_pos _).ne'

theorem nextPow2_eq_two_pow {c : SizeT} (hc : 2 ≤ c.toNat) (h0 : nextPow2 c ≠ 0) :
    ∃ k, 1 ≤ k ∧ k ≤ 63 ∧ (nextPow2 c).toNat = 2 ^ k := by
  have hx0 : c.toNat - 1 ≠ 0 := by omega
  have hle := (nextPow2_ne_zero_iff hc).mp h0
  have hlog : (c.toNat - 1).log2 < 63 := (Nat.log2_lt hx0).mpr (by omega)
  refine ⟨(c.toNat - 1).log2 + 1, by omega, by omega, ?_⟩
  rw [toNat_nextPow2 hc]
  exact Nat.mod_eq_of_lt (Nat.pow_lt_pow_right (by decide) (by omega))

theorem nextPow2_of_le_one {c : SizeT} (hc : c.toNat ≤ 1) : nextPow2 c = 1 := by
  rw [nextPow2, if_pos]
  rw [BitVec.le_def]
  exact hc

/-! ## Positions modulo `2^64` -/

theorem toInt_sub_ofNat {a b : Nat} (hab : a ≤ b) (hlt : b - a < 2 ^ 63) :
    (BitVec.ofNat 64 a - BitVec.ofNat 64 b).toInt = -((b - a : Nat) : Int) := by
  rw [BitVec.toInt_sub, BitVec.toInt_ofNat', BitVec.toInt_ofNat']
  rw [Int.bmod_sub_bmod, Int.sub_bmod_bmod]
  rw [Int.bmod_eq_of_le] <;> omega

theorem ofNat_add_one (p : Nat) : BitVec.ofNat 64 p + 1 = BitVec.ofNat 64 (p + 1) :=
  (BitVec.ofNat_add p 1).symm

/-- The state of a queue of `cap = 2^k` cells that holds `xs`, the head at
ticket `d`. -/
structure Represents (q : MPMCQueue α) (k d : Nat) (xs : List α) : Prop where
  k_pos : 1 ≤ k
  k_le : k ≤ 63
  cap_eq : q.cap = BitVec.ofNat 64 (2 ^ k)
  mask_eq : q.mask = BitVec.ofNat 64 (2 ^ k - 1)
  deq_eq : q.deqPos = BitVec.ofNat 64 d
  enq_eq : q.enqPos = BitVec.ofNat 64 (d + xs.length)
  length_le : xs.length ≤ 2 ^ k
  full : ∀ i (hi : i < xs.length),
    q.cells ((d + i) % 2 ^ k) = ⟨BitVec.ofNat 64 (d + i + 1), some xs[i]⟩
  free : ∀ i, xs.length ≤ i → i < 2 ^ k →
    (q.cells ((d + i) % 2 ^ k)).seq = BitVec.ofNat 64 (d + i)

section Represents

variable {q : MPMCQueue α} {k d : Nat} {xs : List α}

theorem Represents.index_ofNat (h : Represents q k d xs) (p : Nat) :
    q.index (BitVec.ofNat 64 p) = p % 2 ^ k := by
  have hk : 2 ^ k ≤ 2 ^ 63 := Nat.pow_le_pow_right (by decide) h.k_le
  have hdvd : 2 ^ k ∣ 2 ^ 64 := Nat.pow_dvd_pow 2 (by have := h.k_le; omega)
  rw [MPMCQueue.index, h.mask_eq, BitVec.toNat_and, BitVec.toNat_ofNat, BitVec.toNat_ofNat,
    Nat.mod_eq_of_lt (show 2 ^ k - 1 < 2 ^ 64 by omega), Nat.and_two_pow_sub_one_eq_mod,
    Nat.mod_mod_of_dvd _ hdvd]

theorem Represents.toNat_cap (h : Represents q k d xs) : q.cap.toNat = 2 ^ k := by
  have hk : 2 ^ k ≤ 2 ^ 63 := Nat.pow_le_pow_right (by decide) h.k_le
  rw [h.cap_eq, BitVec.toNat_ofNat, Nat.mod_eq_of_lt (by omega)]

theorem Represents.two_le_cap (h : Represents q k d xs) : 2 ≤ 2 ^ k := by
  calc 2 = 2 ^ 1 := rfl
    _ ≤ 2 ^ k := Nat.pow_le_pow_right (by decide) h.k_pos

theorem Represents.cap_le (h : Represents q k d xs) : 2 ^ k ≤ 2 ^ 63 :=
  Nat.pow_le_pow_right (by decide) h.k_le

/-! ### One operation -/

theorem Represents.tryEnqueue_full (h : Represents q k d xs) (hfull : xs.length = 2 ^ k)
    (v : α) (spurious : Nat) {fuel : Nat} (hfuel : 1 ≤ fuel) :
    q.tryEnqueue fuel spurious v = some (false, q) := by
  obtain ⟨fuel, rfl⟩ : ∃ f, fuel = f + 1 := ⟨fuel - 1, by omega⟩
  have hcap2 := h.two_le_cap
  have hcap63 := h.cap_le
  have hseq : (q.cells (q.index q.enqPos)).seq = BitVec.ofNat 64 (d + 1) := by
    rw [h.enq_eq, h.index_ofNat, hfull, Nat.add_mod_right]
    have hcell := h.full 0 (by omega)
    rw [Nat.add_zero] at hcell
    rw [hcell]
  have hdif : ((q.cells (q.index q.enqPos)).seq - q.enqPos).toInt =
      -((2 ^ k - 1 : Nat) : Int) := by
    rw [hseq, h.enq_eq, hfull, toInt_sub_ofNat (by omega) (by omega)]
    congr 2
    omega
  unfold MPMCQueue.tryEnqueue MPMCQueue.doEnqueueLoop
  simp only [hdif]
  rw [if_neg (by omega), if_pos (by omega)]

def enqueued (q : MPMCQueue α) (v : α) : MPMCQueue α :=
  { q with enqPos := q.enqPos + 1 }.setCell (q.index q.enqPos) ⟨q.enqPos + 1, some v⟩

theorem doEnqueueLoop_of_free (v : α) (hseq : (q.cells (q.index q.enqPos)).seq = q.enqPos) :
    ∀ (spurious fuel : Nat), spurious < fuel →
      q.doEnqueueLoop v fuel spurious q.enqPos = some (true, enqueued q v) := by
  intro spurious
  induction spurious with
  | zero =>
      intro fuel hfuel
      obtain ⟨fuel, rfl⟩ : ∃ f, fuel = f + 1 := ⟨fuel - 1, by omega⟩
      simp [MPMCQueue.doEnqueueLoop, hseq, enqueued]
  | succ spurious ih =>
      intro fuel hfuel
      obtain ⟨fuel, rfl⟩ : ∃ f, fuel = f + 1 := ⟨fuel - 1, by omega⟩
      rw [MPMCQueue.doEnqueueLoop]
      simp only [hseq, BitVec.sub_self, BitVec.toInt_zero, if_true]
      exact ih fuel (by omega)

theorem Represents.enqueued (h : Represents q k d xs) (hroom : xs.length < 2 ^ k) (v : α) :
    Represents (enqueued q v) k d (xs ++ [v]) := by
  have hidx : q.index q.enqPos = (d + xs.length) % 2 ^ k := by
    rw [h.enq_eq, h.index_ofNat]
  have hcell : ∀ i, (MpmcQueue.enqueued q v).cells i =
      if i = (d + xs.length) % 2 ^ k
      then ⟨BitVec.ofNat 64 (d + xs.length + 1), some v⟩ else q.cells i := by
    intro i
    simp only [MpmcQueue.enqueued, MPMCQueue.setCell, hidx]
    rw [h.enq_eq, ofNat_add_one]
  refine ⟨h.k_pos, h.k_le, h.cap_eq, h.mask_eq, h.deq_eq, ?_, ?_, ?_, ?_⟩
  · change q.enqPos + 1 = _
    rw [h.enq_eq, ofNat_add_one, List.length_append, List.length_singleton, Nat.add_assoc]
  · rw [List.length_append, List.length_singleton]
    exact hroom
  · intro i hi
    rw [List.length_append, List.length_singleton] at hi
    rw [hcell]
    by_cases hlast : i = xs.length
    · subst hlast
      simp
    · have hne : (d + i) % 2 ^ k ≠ (d + xs.length) % 2 ^ k :=
        mod_ne_of_lt_lap (by omega) (by omega)
      rw [if_neg hne, h.full i (by omega), List.getElem_append_left (by omega)]
  · intro i hlow hhigh
    rw [List.length_append, List.length_singleton] at hlow
    have hne : (d + i) % 2 ^ k ≠ (d + xs.length) % 2 ^ k :=
      (mod_ne_of_lt_lap (by omega) (by omega)).symm
    rw [hcell, if_neg hne]
    exact h.free i (by omega) hhigh

theorem Represents.tryEnqueue_room (h : Represents q k d xs) (hroom : xs.length < 2 ^ k)
    (v : α) (spurious : Nat) {fuel : Nat} (hfuel : spurious < fuel) :
    q.tryEnqueue fuel spurious v = some (true, MpmcQueue.enqueued q v) := by
  have hseq : (q.cells (q.index q.enqPos)).seq = q.enqPos := by
    rw [h.enq_eq, h.index_ofNat, h.free _ le_rfl hroom]
  exact doEnqueueLoop_of_free v hseq spurious fuel hfuel

theorem Represents.tryDequeue_nil (h : Represents q k d ([] : List α)) (spurious : Nat)
    {fuel : Nat} (hfuel : 1 ≤ fuel) : q.tryDequeue fuel spurious = some (none, q) := by
  obtain ⟨fuel, rfl⟩ : ∃ f, fuel = f + 1 := ⟨fuel - 1, by omega⟩
  have hcap2 := h.two_le_cap
  have hseq : (q.cells (q.index q.deqPos)).seq = BitVec.ofNat 64 d := by
    have hfree := h.free 0 (Nat.zero_le _) (by omega)
    rw [h.deq_eq, h.index_ofNat]
    simpa using hfree
  have hdif : ((q.cells (q.index q.deqPos)).seq - (q.deqPos + 1)).toInt = -1 := by
    rw [hseq, h.deq_eq, ofNat_add_one, toInt_sub_ofNat (by omega) (by omega)]
    simp
  unfold MPMCQueue.tryDequeue MPMCQueue.tryDequeueLoop
  simp only [hdif]
  rfl

def dequeued (q : MPMCQueue α) : MPMCQueue α :=
  { q with deqPos := q.deqPos + 1 }.setCell (q.index q.deqPos) ⟨q.deqPos + q.cap, none⟩

theorem tryDequeueLoop_of_full
    (hseq : (q.cells (q.index q.deqPos)).seq = q.deqPos + 1) :
    ∀ (spurious fuel : Nat), spurious < fuel →
      q.tryDequeueLoop fuel spurious q.deqPos =
        some (some (q.cells (q.index q.deqPos)).storage, dequeued q) := by
  intro spurious
  induction spurious with
  | zero =>
      intro fuel hfuel
      obtain ⟨fuel, rfl⟩ : ∃ f, fuel = f + 1 := ⟨fuel - 1, by omega⟩
      simp [MPMCQueue.tryDequeueLoop, hseq, dequeued]
  | succ spurious ih =>
      intro fuel hfuel
      obtain ⟨fuel, rfl⟩ : ∃ f, fuel = f + 1 := ⟨fuel - 1, by omega⟩
      rw [MPMCQueue.tryDequeueLoop]
      simp only [hseq, BitVec.sub_self, BitVec.toInt_zero, if_true]
      exact ih fuel (by omega)

theorem Represents.dequeued {x : α} (h : Represents q k d (x :: xs)) :
    Represents (dequeued q) k (d + 1) xs := by
  have hlen : xs.length + 1 ≤ 2 ^ k := h.length_le
  have hidx : q.index q.deqPos = d % 2 ^ k := by rw [h.deq_eq, h.index_ofNat]
  have hcell : ∀ i, (MpmcQueue.dequeued q).cells i =
      if i = d % 2 ^ k then ⟨BitVec.ofNat 64 (d + 2 ^ k), none⟩ else q.cells i := by
    intro i
    simp only [MpmcQueue.dequeued, MPMCQueue.setCell, hidx]
    rw [h.deq_eq, h.cap_eq, ← BitVec.ofNat_add]
  refine ⟨h.k_pos, h.k_le, h.cap_eq, h.mask_eq, ?_, ?_, by omega, ?_, ?_⟩
  · change q.deqPos + 1 = _
    rw [h.deq_eq, ofNat_add_one]
  · change q.enqPos = _
    rw [h.enq_eq, List.length_cons]
    congr 1
    omega
  · intro i hi
    have hne : (d + 1 + i) % 2 ^ k ≠ d % 2 ^ k :=
      (mod_ne_of_lt_lap (by omega) (by omega)).symm
    have hfull := h.full (i + 1) (by simpa using hi)
    rw [show d + (i + 1) = d + 1 + i by omega] at hfull
    rw [hcell, if_neg hne, hfull]
    simp
  · intro i hlow hhigh
    rw [hcell]
    by_cases hlast : i = 2 ^ k - 1
    · -- the cell just emptied is the last free one of the next lap
      have hwrap : d + 1 + i = d + 2 ^ k := by omega
      rw [hwrap, Nat.add_mod_right, if_pos rfl]
    · have hne : (d + 1 + i) % 2 ^ k ≠ d % 2 ^ k :=
        (mod_ne_of_lt_lap (by omega) (by omega)).symm
      have hfree := h.free (i + 1) (by simpa using hlow) (by omega)
      rw [show d + (i + 1) = d + 1 + i by omega] at hfree
      rw [if_neg hne, hfree]

theorem Represents.tryDequeue_cons {x : α} (h : Represents q k d (x :: xs)) (spurious : Nat)
    {fuel : Nat} (hfuel : spurious < fuel) :
    q.tryDequeue fuel spurious = some (some (some x), MpmcQueue.dequeued q) := by
  have hcell : q.cells (q.index q.deqPos) = ⟨BitVec.ofNat 64 (d + 1), some x⟩ := by
    have hfull := h.full 0 (by simp)
    rw [h.deq_eq, h.index_ofNat]
    simpa using hfull
  have hseq : (q.cells (q.index q.deqPos)).seq = q.deqPos + 1 := by
    rw [hcell, h.deq_eq, ofNat_add_one]
  rw [MPMCQueue.tryDequeue, tryDequeueLoop_of_full hseq spurious fuel hfuel, hcell]

theorem Represents.toNat_sizeRelaxed (h : Represents q k d xs) :
    q.sizeRelaxed.toNat = xs.length := by
  have hcap63 := h.cap_le
  have hlen := h.length_le
  have hsub : q.enqPos - q.deqPos = BitVec.ofNat 64 xs.length := by
    rw [h.enq_eq, h.deq_eq, BitVec.ofNat_add, BitVec.add_comm, BitVec.add_sub_cancel]
  have hval : (q.enqPos - q.deqPos).toNat = xs.length := by
    rw [hsub, BitVec.toNat_ofNat, Nat.mod_eq_of_lt (by omega)]
  rw [MPMCQueue.sizeRelaxed, if_neg, hval]
  rw [gt_iff_lt, BitVec.lt_def, hval, h.toNat_cap]
  omega

theorem Represents.emptyRelaxed_eq (h : Represents q k d xs) :
    q.emptyRelaxed = xs.isEmpty := by
  have hsize := h.toNat_sizeRelaxed
  have hcap63 := h.cap_le
  have hlen := h.length_le
  rw [MPMCQueue.emptyRelaxed]
  cases xs with
  | nil => rw [h.enq_eq, h.deq_eq]; simp
  | cons x xs =>
      rw [List.length_cons] at hlen
      simp only [List.isEmpty_cons, decide_eq_false_iff_not]
      rw [h.enq_eq, h.deq_eq, List.length_cons]
      intro heq
      have hnat := congrArg BitVec.toNat heq
      rw [BitVec.toNat_ofNat, BitVec.toNat_ofNat] at hnat
      omega

theorem Represents.empty_eq (h : Represents q k d xs) : q.empty = xs.isEmpty := by
  have hcap2 := h.two_le_cap
  cases xs with
  | nil =>
      have hfree := h.free 0 (Nat.zero_le _) (by omega)
      have hseq : (q.cells (q.index q.deqPos)).seq = BitVec.ofNat 64 d := by
        rw [h.deq_eq, h.index_ofNat]
        simpa using hfree
      rw [MPMCQueue.empty, hseq, h.deq_eq, ofNat_add_one, toInt_sub_ofNat (by omega) (by omega)]
      simp
  | cons x xs =>
      have hfull := h.full 0 (by simp)
      have hseq : (q.cells (q.index q.deqPos)).seq = BitVec.ofNat 64 (d + 1) := by
        rw [h.deq_eq, h.index_ofNat]
        have := congrArg Cell.seq hfull
        simpa using this
      rw [MPMCQueue.empty, hseq, h.deq_eq, ofNat_add_one, BitVec.sub_self]
      simp

/-! ### Bulk operations -/

theorem Represents.tryEnqueueBulk (vs : List (α × Nat)) :
    ∀ {q : MPMCQueue α} {xs : List α}, Represents q k d xs →
      ∃ enough q', (∀ fuel ≥ enough, q.tryEnqueueBulk fuel vs =
          some (((vs.take (2 ^ k - xs.length)).map Prod.fst).length, q')) ∧
        Represents q' k d (xs ++ (vs.take (2 ^ k - xs.length)).map Prod.fst) := by
  induction vs with
  | nil =>
      intro q xs h
      refine ⟨0, q, fun fuel _ => by simp [MPMCQueue.tryEnqueueBulk], ?_⟩
      simpa using h
  | cons e vs ih =>
      obtain ⟨v, spurious⟩ := e
      intro q xs h
      rcases Nat.lt_or_ge xs.length (2 ^ k) with hroom | hfull
      · obtain ⟨enough, q', hbulk, hrep⟩ := ih (h.enqueued hroom v)
        have htake : ((v, spurious) :: vs).take (2 ^ k - xs.length) =
            (v, spurious) :: vs.take (2 ^ k - (xs ++ [v]).length) := by
          rw [List.length_append, List.length_singleton,
            show 2 ^ k - xs.length = 2 ^ k - (xs.length + 1) + 1 by omega, List.take_succ_cons]
        refine ⟨max enough (spurious + 1), q', fun fuel hfuel => ?_, ?_⟩
        · rw [MPMCQueue.tryEnqueueBulk, h.tryEnqueue_room hroom v spurious (by omega)]
          simp only [hbulk fuel (by omega), Option.map_some, htake, List.map_cons,
            List.length_cons]
        · rw [htake, List.map_cons]
          rwa [List.append_assoc, List.singleton_append] at hrep
      · have heq : xs.length = 2 ^ k := le_antisymm h.length_le hfull
        refine ⟨1, q, fun fuel hfuel => ?_, ?_⟩
        · rw [MPMCQueue.tryEnqueueBulk, h.tryEnqueue_full heq v spurious hfuel]
          simp [heq]
        · simpa [heq] using h

theorem Represents.tryDequeueBulk (ks : List Nat) :
    ∀ {q : MPMCQueue α} {d : Nat} {xs : List α}, Represents q k d xs →
      ∃ enough q' d', (∀ fuel ≥ enough,
          q.tryDequeueBulk fuel ks = some ((xs.take ks.length).map some, q')) ∧
        Represents q' k d' (xs.drop ks.length) := by
  induction ks with
  | nil =>
      intro q d xs h
      refine ⟨0, q, d, fun fuel _ => by simp [MPMCQueue.tryDequeueBulk], ?_⟩
      simpa using h
  | cons spurious ks ih =>
      intro q d xs h
      cases xs with
      | nil =>
          refine ⟨1, q, d, fun fuel hfuel => ?_, ?_⟩
          · rw [MPMCQueue.tryDequeueBulk, h.tryDequeue_nil spurious hfuel]
            simp
          · simpa using h
      | cons x xs =>
          obtain ⟨enough, q', d', hbulk, hrep⟩ := ih h.dequeued
          refine ⟨max enough (spurious + 1), q', d', fun fuel hfuel => ?_, ?_⟩
          · rw [MPMCQueue.tryDequeueBulk, h.tryDequeue_cons spurious (by omega)]
            simp [hbulk fuel (by omega)]
          · simpa using hrep

/-! ### Runs -/

/-- One call on a queue that represents a list answers as the list does. -/
theorem Represents.exec (h : Represents q k d xs) (call : Call α) :
    ∃ enough q' d', (∀ fuel ≥ enough,
        call.exec fuel q = some ((call.spec (2 ^ k) xs).1, q')) ∧
      Represents q' k d' (call.spec (2 ^ k) xs).2 := by
  cases call with
  | tryEnqueue v spurious =>
      rcases Nat.lt_or_ge xs.length (2 ^ k) with hroom | hfull
      · refine ⟨spurious + 1, MpmcQueue.enqueued q v, d, fun fuel hfuel => ?_, ?_⟩
        · rw [Call.exec, h.tryEnqueue_room hroom v spurious hfuel]
          simp [Call.spec, hroom.ne]
        · simpa [Call.spec, hroom.ne] using h.enqueued hroom v
      · have heq : xs.length = 2 ^ k := le_antisymm h.length_le hfull
        refine ⟨1, q, d, fun fuel hfuel => ?_, ?_⟩
        · simp [Call.exec, Call.spec, h.tryEnqueue_full heq v spurious hfuel, heq]
        · simpa [Call.spec, heq] using h
  | tryDequeue spurious =>
      cases xs with
      | nil =>
          refine ⟨1, q, d, fun fuel hfuel => ?_, h⟩
          simp [Call.exec, Call.spec, h.tryDequeue_nil spurious hfuel]
      | cons x xs =>
          refine ⟨spurious + 1, _, d + 1, fun fuel hfuel => ?_, h.dequeued⟩
          rw [Call.exec, h.tryDequeue_cons spurious hfuel]
          rfl
  | tryEnqueueBulk vs =>
      obtain ⟨enough, q', hbulk, hrep⟩ := Represents.tryEnqueueBulk vs h
      refine ⟨enough, q', d, fun fuel hfuel => ?_, hrep⟩
      simp [Call.exec, Call.spec, hbulk fuel hfuel]
  | tryDequeueBulk ks =>
      obtain ⟨enough, q', d', hbulk, hrep⟩ := Represents.tryDequeueBulk ks h
      refine ⟨enough, q', d', fun fuel hfuel => ?_, hrep⟩
      simp [Call.exec, Call.spec, hbulk fuel hfuel]
  | size =>
      refine ⟨0, q, d, fun fuel _ => ?_, h⟩
      simp [Call.exec, Call.spec, MPMCQueue.size, h.toNat_sizeRelaxed]
  | sizeRelaxed =>
      refine ⟨0, q, d, fun fuel _ => ?_, h⟩
      simp [Call.exec, Call.spec, h.toNat_sizeRelaxed]
  | empty =>
      refine ⟨0, q, d, fun fuel _ => ?_, h⟩
      simp [Call.exec, Call.spec, h.empty_eq]
  | emptyRelaxed =>
      refine ⟨0, q, d, fun fuel _ => ?_, h⟩
      simp [Call.exec, Call.spec, h.emptyRelaxed_eq]

end Represents

theorem run_of_represents {k : Nat} (calls : List (Call α)) :
    ∀ {q : MPMCQueue α} {d : Nat} {xs : List α}, Represents q k d xs →
      ∃ enough, ∀ fuel ≥ enough, run fuel q calls = some (specRun (2 ^ k) xs calls) := by
  induction calls with
  | nil => intro q d xs _; exact ⟨0, fun _ _ => rfl⟩
  | cons call calls ih =>
      intro q d xs h
      obtain ⟨enough₁, q₁, d₁, hexec, hrep₁⟩ := h.exec call
      obtain ⟨enough₂, hrun⟩ := ih hrep₁
      refine ⟨max enough₁ enough₂, fun fuel hfuel => ?_⟩
      rw [run, hexec fuel (by omega)]
      simp only [hrun fuel (by omega), Option.map_some, specRun]

/-! ## Which capacities behave like a list -/

theorem represents_new {c : SizeT} {k : Nat} (hk : 1 ≤ k) (hk63 : k ≤ 63)
    (hcap : (nextPow2 c).toNat = 2 ^ k) : Represents (MPMCQueue.new c : MPMCQueue α) k 0 [] := by
  have hle : 2 ^ k ≤ 2 ^ 63 := Nat.pow_le_pow_right (by decide) hk63
  have hpos : 1 ≤ 2 ^ k := Nat.one_le_two_pow
  have hcapEq : nextPow2 c = BitVec.ofNat 64 (2 ^ k) := by
    apply BitVec.eq_of_toNat_eq
    rw [hcap, BitVec.toNat_ofNat, Nat.mod_eq_of_lt (by omega)]
  have hmask : nextPow2 c - 1 = BitVec.ofNat 64 (2 ^ k - 1) := by
    apply BitVec.eq_of_toNat_eq
    rw [BitVec.toNat_sub_of_le, hcap, BitVec.toNat_ofNat, Nat.mod_eq_of_lt (by omega)]
    · rfl
    · rw [BitVec.le_def, hcap]
      exact hpos
  refine ⟨hk, hk63, hcapEq, hmask, rfl, rfl, Nat.zero_le _, ?_, ?_⟩
  · intro i hi
    exact absurd hi (Nat.not_lt_zero i)
  · intro i _ hi
    simp [MPMCQueue.new, Nat.mod_eq_of_lt hi]

theorem behavesLikeList_of_two_le {c : SizeT} (hc : 2 ≤ c.toNat) (h0 : nextPow2 c ≠ 0) :
    BehavesLikeList α c := by
  obtain ⟨k, hk, hk63, hcap⟩ := nextPow2_eq_two_pow hc h0
  intro calls
  have hrep : Represents (MPMCQueue.new c : MPMCQueue α) k 0 [] := represents_new hk hk63 hcap
  obtain ⟨enough, hrun⟩ := run_of_represents calls hrep
  refine ⟨enough, fun fuel hfuel => ?_⟩
  rw [hrun fuel hfuel, MPMCQueue.capacity, hrep.toNat_cap]

/-- With a single cell the sequence number `pos + 1` left by an enqueue is the
one that marks the cell free for the next lap, so the second enqueue succeeds. -/
theorem run_two_enqueues_of_le_one {c : SizeT} (hc : c.toNat ≤ 1) (v : α) (fuel : Nat) :
    run (fuel + 1) (MPMCQueue.new c) [.tryEnqueue v 0, .tryEnqueue v 0] =
      some [.enqueued true, .enqueued true] := by
  simp [run, Call.exec, MPMCQueue.new, nextPow2_of_le_one hc, MPMCQueue.tryEnqueue,
    MPMCQueue.doEnqueueLoop, MPMCQueue.index, MPMCQueue.setCell]

theorem not_behavesLikeList_of_le_one {c : SizeT} (hc : c.toNat ≤ 1) (v : α) :
    ¬BehavesLikeList α c := by
  intro h
  obtain ⟨enough, hrun⟩ := h [.tryEnqueue v 0, .tryEnqueue v 0]
  have hlist := hrun (enough + 1) (by omega)
  rw [run_two_enqueues_of_le_one hc] at hlist
  simp [specRun, Call.spec, MPMCQueue.capacity, MPMCQueue.new, nextPow2_of_le_one hc] at hlist

/-- The queue is a bounded list exactly when it was asked for at least two
cells. -/
theorem behavesLikeList_iff [Nonempty α] {sizeofCell : Nat} {c : SizeT}
    (halloc : Allocatable sizeofCell c) : BehavesLikeList α c ↔ 2 ≤ c.toNat := by
  constructor
  · intro h
    obtain ⟨v⟩ := ‹Nonempty α›
    by_contra hc
    exact not_behavesLikeList_of_le_one (by omega) v h
  · intro hc
    exact behavesLikeList_of_two_le hc halloc.1

theorem behavesLikeList_default : BehavesLikeList Nat 1024 ∧ ¬BehavesLikeList Nat 1 :=
  ⟨(behavesLikeList_iff (c := 1024) (show Allocatable 16 1024 by decide)).2 (by decide),
    fun h => absurd ((behavesLikeList_iff (c := 1) (show Allocatable 16 1 by decide)).1 h)
      (by decide)⟩

/-- `AsyncChannel` built with capacity `1`: the second element is accepted and
overwrites the first. -/
theorem single_cell_not_list : Allocatable 16 1 ∧ ¬BehavesLikeList Nat 1 :=
  ⟨by decide, not_behavesLikeList_of_le_one (by decide) 0⟩

end Uvent.Queue.MpmcQueue
