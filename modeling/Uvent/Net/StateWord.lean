import Uvent.Lib.BitField

/-!
# The packed `SocketHeader.state` word

Reference count, timeout epoch and flag bits of a socket header share one
64-bit word (`utils::sync::refc`).  Flags are changed by `fetch_or` and
`fetch_and`; the count and the epoch by raw `fetch_add` and `fetch_sub`.  Every
operation below is the effect of one successful atomic read-modify-write, so a
list of operations is any interleaving of them.

The epoch takes bits 40 to 55 and is bumped once per successful read or write.
Nothing bounds the number of bumps, so the field carries into bit 56 at the
65536th bump and into `DISCONNECTED` later on.
-/

namespace Uvent.Net.StateWord

open Uvent.Lib.BitField

abbrev Word := BitVec 64

/-- `UVENT_ENABLE_REUSEADDR` off or on. -/
inductive Build where
  | shared
  | reuseaddr
  deriving DecidableEq, Repr

def closedMask : Word := 1 <<< 63
def busyMask : Word := 1 <<< 62
def readingMask : Word := 1 <<< 61
def writingMask : Word := 1 <<< 60
def disconnectedMask : Word := 1 <<< 59
def refcountBits : Nat := 40
def countMask : Word := (1 <<< refcountBits) - 1
def timeoutEpochShift : Nat := refcountBits
def timeoutEpochBits : Nat := 16
def timeoutEpochStep : Word := 1 <<< timeoutEpochShift
def timeoutEpochMask : Word := ((1 <<< timeoutEpochBits) - 1) <<< timeoutEpochShift

/-- `pack(1, false)`: the word of a fresh header. -/
def initialState : Word := 1 &&& countMask

def isClosed (s : Word) : Bool := s &&& closedMask != 0

/-! ## The operations -/

def timeoutEpochBump (s : Word) : Word := s + timeoutEpochStep

def markDisconnected (s : Word) : Word := s ||| disconnectedMask

def closeForNewRefs (s : Word) : Word := s ||| closedMask

def tryMarkBusy (s : Word) : Bool × Word :=
  if s &&& (closedMask ||| disconnectedMask ||| busyMask) != 0 then (false, s)
  else (true, s ||| busyMask)

def clearBusy (s : Word) : Word := s &&& ~~~busyMask

/-- `try_mark_reading` and `try_mark_writing`: the shared build refuses a
closed header, the other one sets the bit unconditionally. -/
def tryMark (b : Build) (mask s : Word) : Bool × Word :=
  match b with
  | .shared => if isClosed s then (false, s) else (true, s ||| mask)
  | .reuseaddr => (true, s ||| mask)

def tryMarkReading (b : Build) (s : Word) : Bool × Word := tryMark b readingMask s

def clearReading (s : Word) : Word := s &&& ~~~readingMask

def tryMarkWriting (b : Build) (s : Word) : Bool × Word := tryMark b writingMask s

def clearWriting (s : Word) : Word := s &&& ~~~writingMask

def tryAddRef (s : Word) : Bool × Word :=
  if isClosed s then (false, s)
  else if s &&& countMask = countMask then (false, s)
  else (true, (s &&& ~~~countMask) ||| ((s &&& countMask) + 1))

def addRef (s : Word) : Word := s + 1

/-- `RefCounted::release`; the flag says that the last reference went and
`destroy` runs. -/
def release (s : Word) : Bool × Word := (s &&& countMask == 1, s - 1)

def decreaseRef (s : Word) : Word := s - 1

inductive HeaderOp where
  | timeoutEpochBump
  | markDisconnected
  | closeForNewRefs
  | tryMarkBusy
  | clearBusy
  | tryMarkReading
  | clearReading
  | tryMarkWriting
  | clearWriting
  | tryAddRef
  | addRef
  | release
  | decreaseRef
  deriving DecidableEq, Repr

def HeaderOp.apply (b : Build) : HeaderOp → Word → Word
  | .timeoutEpochBump, s => StateWord.timeoutEpochBump s
  | .markDisconnected, s => StateWord.markDisconnected s
  | .closeForNewRefs, s => StateWord.closeForNewRefs s
  | .tryMarkBusy, s => (StateWord.tryMarkBusy s).2
  | .clearBusy, s => StateWord.clearBusy s
  | .tryMarkReading, s => (StateWord.tryMarkReading b s).2
  | .clearReading, s => StateWord.clearReading s
  | .tryMarkWriting, s => (StateWord.tryMarkWriting b s).2
  | .clearWriting, s => StateWord.clearWriting s
  | .tryAddRef, s => (StateWord.tryAddRef s).2
  | .addRef, s => StateWord.addRef s
  | .release, s => (StateWord.release s).2
  | .decreaseRef, s => StateWord.decreaseRef s

def HeaderOp.ownMask : HeaderOp → Word
  | .timeoutEpochBump => timeoutEpochMask
  | .markDisconnected => disconnectedMask
  | .closeForNewRefs => closedMask
  | .tryMarkBusy | .clearBusy => busyMask
  | .tryMarkReading | .clearReading => readingMask
  | .tryMarkWriting | .clearWriting => writingMask
  | .tryAddRef | .addRef | .release | .decreaseRef => countMask

def Isolated (b : Build) (op : HeaderOp) (s : Word) : Prop :=
  SameOutside op.ownMask s (op.apply b s)

def run (b : Build) (s : Word) (ops : List HeaderOp) : Word :=
  ops.foldl (fun s op => op.apply b s) s

theorem run_cons (b : Build) (s : Word) (op : HeaderOp) (ops : List HeaderOp) :
    run b s (op :: ops) = run b (op.apply b s) ops := rfl

def IsolatedRun (b : Build) : Word → List HeaderOp → Prop
  | _, [] => True
  | s, op :: ops => Isolated b op s ∧ IsolatedRun b (op.apply b s) ops

/-! ## References held along a run -/

def HeaderOp.refsAfter (op : HeaderOp) (s : Word) (n : Nat) : Nat :=
  match op with
  | .tryAddRef => if (StateWord.tryAddRef s).1 then n + 1 else n
  | .addRef => n + 1
  | .release | .decreaseRef => n - 1
  | _ => n

def HeaderOp.drops : HeaderOp → Bool
  | .release | .decreaseRef => true
  | _ => false

def Balanced (b : Build) : Word → Nat → List HeaderOp → Prop
  | _, _, [] => True
  | s, n, op :: ops =>
      (op.drops = true → 0 < n) ∧ Balanced b (op.apply b s) (op.refsAfter s n) ops

/-- No raw `add_ref` is made while the count field is already full. -/
def CountFits (b : Build) : Word → Nat → List HeaderOp → Prop
  | _, _, [] => True
  | s, n, op :: ops =>
      (op = .addRef → n < 2 ^ refcountBits - 1) ∧
        CountFits b (op.apply b s) (op.refsAfter s n) ops

def countOf (s : Word) : Nat := field s 0 refcountBits

def epochOf (s : Word) : Nat := field s timeoutEpochShift timeoutEpochBits

/-! ## Masks as fields -/

theorem countMask_eq : countMask = fieldMask 64 0 refcountBits := by decide

theorem timeoutEpochMask_eq :
    timeoutEpochMask = fieldMask 64 timeoutEpochShift timeoutEpochBits := by decide

theorem timeoutEpochStep_eq : timeoutEpochStep = BitVec.ofNat 64 (2 ^ timeoutEpochShift) := by
  decide

/-- The mask of an operation that is neither a count nor an epoch operation is
one flag bit above both fields. -/
def HeaderOp.flagBit : HeaderOp → Option Nat
  | .markDisconnected => some 59
  | .closeForNewRefs => some 63
  | .tryMarkBusy | .clearBusy => some 62
  | .tryMarkReading | .clearReading => some 61
  | .tryMarkWriting | .clearWriting => some 60
  | _ => none

theorem ownMask_of_flagBit {op : HeaderOp} {k : Nat} (h : op.flagBit = some k) :
    op.ownMask = fieldMask 64 k 1 ∧ timeoutEpochShift + timeoutEpochBits ≤ k := by
  cases op <;> simp only [HeaderOp.flagBit, reduceCtorEq, Option.some.injEq] at h <;>
    subst h <;> decide

theorem isolated_of_flagBit {b : Build} {op : HeaderOp} {k : Nat} (h : op.flagBit = some k)
    (s : Word) : Isolated b op s := by
  cases op with
  | markDisconnected => exact sameOutside_or _ _
  | closeForNewRefs => exact sameOutside_or _ _
  | tryMarkBusy =>
      simp only [Isolated, HeaderOp.apply, HeaderOp.ownMask, tryMarkBusy]
      split
      · exact SameOutside.refl _ _
      · exact sameOutside_or _ _
  | clearBusy => exact sameOutside_and_not _ _
  | tryMarkReading =>
      simp only [Isolated, HeaderOp.apply, HeaderOp.ownMask, tryMarkReading, tryMark]
      split
      · split
        · exact SameOutside.refl _ _
        · exact sameOutside_or _ _
      · exact sameOutside_or _ _
  | clearReading => exact sameOutside_and_not _ _
  | tryMarkWriting =>
      simp only [Isolated, HeaderOp.apply, HeaderOp.ownMask, tryMarkWriting, tryMark]
      split
      · split
        · exact SameOutside.refl _ _
        · exact sameOutside_or _ _
      · exact sameOutside_or _ _
  | clearWriting => exact sameOutside_and_not _ _
  | _ => simp [HeaderOp.flagBit] at h

theorem fields_of_flagBit {b : Build} {op : HeaderOp} {k : Nat} (h : op.flagBit = some k)
    (s : Word) : countOf (op.apply b s) = countOf s ∧ epochOf (op.apply b s) = epochOf s := by
  have hiso : Isolated b op s := isolated_of_flagBit h s
  obtain ⟨hmask, hk⟩ := ownMask_of_flagBit h
  have hk' : 56 ≤ k := hk
  have hclear : ∀ i < 56, op.ownMask.getLsbD i = false := by
    intro i hi
    have hbelow : ¬(k ≤ i ∧ i < k + 1) := by omega
    rw [hmask, getLsbD_fieldMask, decide_eq_false hbelow, Bool.and_false]
  constructor
  · apply (field_eq_of_sameOutside hiso ?_).symm
    intro i _ hi
    exact hclear i (by simp only [refcountBits] at hi; omega)
  · apply (field_eq_of_sameOutside hiso ?_).symm
    intro i _ hi
    exact hclear i (by simp only [timeoutEpochShift, timeoutEpochBits, refcountBits] at hi; omega)

/-! ## The epoch -/

theorem epoch_bump_of_lt {s : Word} (h : epochOf s < 2 ^ timeoutEpochBits - 1) :
    SameOutside timeoutEpochMask s (timeoutEpochBump s) ∧
      epochOf (timeoutEpochBump s) = epochOf s + 1 := by
  rw [timeoutEpochMask_eq, timeoutEpochBump, timeoutEpochStep_eq]
  exact add_unit_of_lt (by decide) h

theorem not_isolated_bump {b : Build} {s : Word} (h : epochOf s = 2 ^ timeoutEpochBits - 1) :
    ¬Isolated b .timeoutEpochBump s := by
  simp only [Isolated, HeaderOp.apply, HeaderOp.ownMask]
  rw [timeoutEpochMask_eq, timeoutEpochBump, timeoutEpochStep_eq]
  exact not_sameOutside_add_unit (by decide) h

theorem count_bump {s : Word} (h : epochOf s < 2 ^ timeoutEpochBits - 1) :
    countOf (timeoutEpochBump s) = countOf s := by
  apply (field_eq_of_sameOutside (epoch_bump_of_lt h).1 ?_).symm
  intro i _ hi
  rw [timeoutEpochMask_eq, getLsbD_fieldMask]
  simp [show ¬(timeoutEpochShift ≤ i ∧ i < timeoutEpochShift + timeoutEpochBits) by
    simp only [timeoutEpochShift] at *; omega]

/-! ## The reference count -/

/-- A word change inside the count field keeps the epoch. -/
theorem epochOf_eq_of_count {s t : Word} (h : SameOutside countMask s t) :
    epochOf t = epochOf s := by
  apply (field_eq_of_sameOutside h ?_).symm
  intro i hi _
  rw [countMask_eq, getLsbD_fieldMask]
  have hout : ¬(0 ≤ i ∧ i < 0 + refcountBits) := by
    simp only [timeoutEpochShift] at hi
    omega
  rw [decide_eq_false hout, Bool.and_false]

theorem isClosed_eq_of_count {s t : Word} (h : SameOutside countMask s t) :
    isClosed t = isClosed s := by
  have hmask : closedMask = ~~~countMask &&& closedMask := by decide
  unfold isClosed
  rw [hmask, ← BitVec.and_assoc, ← BitVec.and_assoc, show s &&& ~~~countMask = t &&& ~~~countMask from h]

theorem addRef_of_lt {s : Word} (h : countOf s < 2 ^ refcountBits - 1) :
    SameOutside countMask s (addRef s) ∧ countOf (addRef s) = countOf s + 1 := by
  rw [countMask_eq]
  exact add_unit_of_lt (k := 0) (by decide) h

theorem not_isolated_addRef {b : Build} {s : Word} (h : countOf s = 2 ^ refcountBits - 1) :
    ¬Isolated b .addRef s := by
  simp only [Isolated, HeaderOp.apply, HeaderOp.ownMask]
  rw [countMask_eq]
  exact not_sameOutside_add_unit (k := 0) (by decide) h

theorem sub_one_of_pos {s : Word} (h : 0 < countOf s) :
    SameOutside countMask s (s - 1) ∧ countOf (s - 1) = countOf s - 1 := by
  rw [countMask_eq]
  exact sub_unit_of_pos (k := 0) (by decide) h

theorem toNat_and_countMask (s : Word) : (s &&& countMask).toNat = countOf s := by
  have hmask : countMask.toNat = 2 ^ refcountBits - 1 := by decide
  rw [BitVec.toNat_and, hmask, Nat.and_two_pow_sub_one_eq_mod, countOf, field, Nat.pow_zero,
    Nat.div_one]

theorem release_fst (s : Word) : (release s).1 = true ↔ countOf s = 1 := by
  unfold release
  rw [beq_iff_eq, ← toNat_and_countMask]
  constructor
  · intro h
    rw [h]
    rfl
  · intro h
    exact BitVec.eq_of_toNat_eq h

/-- The compare-and-swap of `try_add_ref` writes what `add_ref` would. -/
theorem tryAddRef_eq_addRef {s : Word} (h : (tryAddRef s).1 = true) :
    (tryAddRef s).2 = addRef s ∧ countOf s < 2 ^ refcountBits - 1 := by
  unfold tryAddRef at h ⊢
  split at h
  · simp at h
  · rename_i hopen
    split at h
    · simp at h
    · rename_i hfull
      have hlt : countOf s < 2 ^ refcountBits - 1 := by
        have hle := field_lt s 0 refcountBits
        have hne : countOf s ≠ 2 ^ refcountBits - 1 := by
          intro heq
          apply hfull
          apply BitVec.eq_of_toNat_eq
          rw [toNat_and_countMask, heq]
          decide
        have hle' : countOf s < 2 ^ refcountBits := hle
        omega
      refine ⟨?_, hlt⟩
      rw [if_neg hopen, if_neg hfull]
      -- count and rest occupy disjoint bits, so the `or` is a sum
      have hsplit : s = (s &&& ~~~countMask) + (s &&& countMask) := by
        apply BitVec.eq_of_toNat_eq
        have hor : (s &&& ~~~countMask) ||| (s &&& countMask) = s := by
          apply BitVec.eq_of_getLsbD_eq
          intro i hi
          simp only [BitVec.getLsbD_or, BitVec.getLsbD_and, BitVec.getLsbD_not, hi,
            decide_true, Bool.true_and]
          cases s.getLsbD i <;> cases countMask.getLsbD i <;> rfl
        have hdisj : (s &&& ~~~countMask) &&& (s &&& countMask) = 0 := by
          apply BitVec.eq_of_getLsbD_eq
          intro i hi
          simp only [BitVec.getLsbD_and, BitVec.getLsbD_not, hi, decide_true, Bool.true_and]
          cases s.getLsbD i <;> cases countMask.getLsbD i <;> simp
        rw [BitVec.add_eq_or_of_and_eq_zero _ _ hdisj, hor]
      have hdisj : (s &&& ~~~countMask) &&& ((s &&& countMask) + 1) = 0 := by
        have hsmall : ((s &&& countMask) + 1).toNat < 2 ^ refcountBits := by
          rw [BitVec.toNat_add, toNat_and_countMask, show (1 : Word).toNat = 1 from rfl]
          simp only [refcountBits] at hlt ⊢
          omega
        apply BitVec.eq_of_getLsbD_eq
        intro i hi
        simp only [BitVec.getLsbD_and, BitVec.getLsbD_not, hi, decide_true, Bool.true_and]
        rw [countMask_eq, getLsbD_fieldMask]
        by_cases hlow : i < refcountBits
        · simp [hi, hlow]
        · have hbit : ((s &&& countMask) + 1).getLsbD i = false := by
            apply Nat.testBit_lt_two_pow
            exact lt_of_lt_of_le hsmall (Nat.pow_le_pow_right (by decide) (by omega))
          rw [← countMask_eq, hbit]
          simp
      rw [← BitVec.add_eq_or_of_and_eq_zero _ _ hdisj, ← BitVec.add_assoc, ← hsplit]
      rfl

theorem tryAddRef_of_open {s : Word} (hopen : isClosed s = false)
    (hlt : countOf s < 2 ^ refcountBits - 1) : (tryAddRef s).1 = true := by
  have hfull : ¬s &&& countMask = countMask := by
    intro heq
    rw [← toNat_and_countMask, heq] at hlt
    exact absurd hlt (by decide)
  unfold tryAddRef
  rw [if_neg (by simp [hopen]), if_neg hfull]

theorem countOf_closeForNewRefs (s : Word) : countOf (closeForNewRefs s) = countOf s := by
  have hflag : HeaderOp.closeForNewRefs.flagBit = some 63 := rfl
  exact (fields_of_flagBit (b := .reuseaddr) hflag s).1

/-! ## Runs -/

theorem tryAddRef_of_false {s : Word} (h : (tryAddRef s).1 = false) : (tryAddRef s).2 = s := by
  unfold tryAddRef at h ⊢
  split
  · rfl
  · rename_i hopen
    rw [if_neg hopen] at h
    split at h
    · rename_i hfull; rw [if_pos hfull]
    · simp at h

/-- What one balanced operation does to the two counters, as long as it stays
inside its field. -/
theorem step_fields {b : Build} {op : HeaderOp} {s : Word} {n e : Nat}
    (hn : countOf s = n) (he : epochOf s = e) (hdrop : op.drops = true → 0 < n)
    (hbump : op = .timeoutEpochBump → e < 2 ^ timeoutEpochBits - 1)
    (hadd : op = .addRef → n < 2 ^ refcountBits - 1) :
    Isolated b op s ∧ countOf (op.apply b s) = op.refsAfter s n ∧
      epochOf (op.apply b s) = e + if op = .timeoutEpochBump then 1 else 0 := by
  subst hn he
  have hsub : 0 < countOf s → SameOutside countMask s (s - 1) ∧
      countOf (s - 1) = countOf s - 1 ∧ epochOf (s - 1) = epochOf s + 0 := by
    intro hpos
    obtain ⟨hsame, hcount⟩ := sub_one_of_pos hpos
    exact ⟨hsame, hcount, epochOf_eq_of_count hsame⟩
  cases hflag : op.flagBit with
  | some k =>
      obtain ⟨hcount, hepoch⟩ := fields_of_flagBit (b := b) hflag s
      refine ⟨isolated_of_flagBit hflag s, ?_, ?_⟩
      · rw [hcount]
        cases op <;> first | rfl | simp [HeaderOp.flagBit] at hflag
      · rw [hepoch]
        cases op <;> first | rfl | simp [HeaderOp.flagBit] at hflag
  | none =>
      cases op with
      | timeoutEpochBump =>
          have hlt := hbump rfl
          obtain ⟨hsame, hepoch⟩ := epoch_bump_of_lt hlt
          exact ⟨hsame, count_bump hlt, hepoch⟩
      | tryAddRef =>
          cases hok : (tryAddRef s).1 with
          | false =>
              have hsame := tryAddRef_of_false hok
              simp only [Isolated, HeaderOp.apply, HeaderOp.refsAfter, hok, hsame]
              exact ⟨SameOutside.refl _ _, rfl, rfl⟩
          | true =>
              obtain ⟨heq, hlt⟩ := tryAddRef_eq_addRef hok
              obtain ⟨hsame, hcount⟩ := addRef_of_lt hlt
              simp only [Isolated, HeaderOp.apply, HeaderOp.refsAfter, hok, heq, if_true]
              exact ⟨hsame, hcount, epochOf_eq_of_count hsame⟩
      | addRef =>
          obtain ⟨hsame, hcount⟩ := addRef_of_lt (hadd rfl)
          exact ⟨hsame, hcount, epochOf_eq_of_count hsame⟩
      | release => exact hsub (hdrop rfl)
      | decreaseRef => exact hsub (hdrop rfl)
      | _ => simp [HeaderOp.flagBit] at hflag

/-- Isolation along a run from any word whose two counters are known. -/
theorem isolatedRun_from (b : Build) (ops : List HeaderOp) :
    ∀ (s : Word) (n e : Nat), countOf s = n → epochOf s = e → Balanced b s n ops →
      (IsolatedRun b s ops ↔
        e + ops.count .timeoutEpochBump < 2 ^ timeoutEpochBits ∧ CountFits b s n ops) := by
  induction ops with
  | nil =>
      intro s n e _ he _
      have hlt : epochOf s < 2 ^ timeoutEpochBits := field_lt _ _ _
      simp only [IsolatedRun, CountFits, List.count_nil, and_true, true_iff]
      omega
  | cons op ops ih =>
      intro s n e hn he hbal
      obtain ⟨hdrop, hrest⟩ := hbal
      have hcount : (op :: ops).count .timeoutEpochBump =
          ops.count .timeoutEpochBump + if op = .timeoutEpochBump then 1 else 0 := by
        rw [List.count_cons]
        by_cases h : op = .timeoutEpochBump <;> simp [h]
      have hepoch : epochOf s < 2 ^ timeoutEpochBits := field_lt _ _ _
      have hcountlt : countOf s < 2 ^ refcountBits := field_lt _ _ _
      by_cases hbump : op = .timeoutEpochBump → e < 2 ^ timeoutEpochBits - 1
      · by_cases hadd : op = .addRef → n < 2 ^ refcountBits - 1
        · obtain ⟨hiso, hn', he'⟩ := step_fields (b := b) hn he hdrop hbump hadd
          have hih := ih _ _ _ hn' he' hrest
          rw [IsolatedRun, CountFits, hih, hcount]
          constructor
          · rintro ⟨-, hlt, hfits⟩
            exact ⟨by omega, hadd, hfits⟩
          · rintro ⟨hlt, -, hfits⟩
            exact ⟨hiso, by omega, hfits⟩
        · rw [Classical.not_imp] at hadd
          obtain ⟨rfl, hfull⟩ := hadd
          constructor
          · rintro ⟨hiso, -⟩
            exact absurd hiso (not_isolated_addRef (by omega))
          · rintro ⟨-, hfits, -⟩
            exact absurd (hfits rfl) hfull
      · rw [Classical.not_imp] at hbump
        obtain ⟨rfl, hfull⟩ := hbump
        constructor
        · rintro ⟨hiso, -⟩
          exact absurd hiso (not_isolated_bump (by omega))
        · rintro ⟨hlt, -⟩
          rw [hcount, if_pos rfl] at hlt
          omega

/-- **Field isolation.**  A balanced run from a fresh header keeps every
operation inside its own field exactly when it bumps the epoch fewer than
65536 times and never makes a raw `add_ref` on a full count. -/
theorem isolatedRun_iff (b : Build) (ops : List HeaderOp) (hbal : Balanced b initialState 1 ops) :
    IsolatedRun b initialState ops ↔
      ops.count .timeoutEpochBump < 2 ^ timeoutEpochBits ∧ CountFits b initialState 1 ops := by
  have hmain := isolatedRun_from b ops initialState 1 0 (by decide) (by decide) hbal
  rwa [Nat.zero_add] at hmain

theorem isolatedRun_bump_read_release :
    Balanced .shared initialState 1 [.addRef, .tryMarkReading, .timeoutEpochBump, .release] ∧
      IsolatedRun .shared initialState
        [.addRef, .tryMarkReading, .timeoutEpochBump, .release] := by
  have hbal : Balanced .shared initialState 1
      [.addRef, .tryMarkReading, .timeoutEpochBump, .release] := by
    simp [Balanced, HeaderOp.drops, HeaderOp.refsAfter]
  refine ⟨hbal, (isolatedRun_iff .shared _ hbal).mpr ⟨by decide, ?_⟩⟩
  simp [CountFits, refcountBits]

/-! ## The carry in a long run -/

theorem balanced_replicate_bump (b : Build) (k : Nat) :
    ∀ s n, Balanced b s n (List.replicate k .timeoutEpochBump) := by
  induction k with
  | zero => intro s n; trivial
  | succ k ih =>
      intro s n
      refine ⟨by simp [HeaderOp.drops], ?_⟩
      exact ih _ _

theorem run_replicate_bump (b : Build) (k : Nat) :
    ∀ s, run b s (List.replicate k .timeoutEpochBump) =
      s + BitVec.ofNat 64 k * timeoutEpochStep := by
  induction k with
  | zero => intro s; simp [run]
  | succ k ih =>
      intro s
      have hsucc : BitVec.ofNat 64 (k + 1) = BitVec.ofNat 64 k + 1#64 := BitVec.ofNat_add k 1
      rw [List.replicate_succ, run_cons, HeaderOp.apply, ih, timeoutEpochBump, hsucc,
        BitVec.add_mul, BitVec.one_mul]
      ac_rfl

theorem not_isolatedRun_replicate_bump (b : Build) {k : Nat} (hk : 2 ^ timeoutEpochBits ≤ k) :
    ¬IsolatedRun b initialState (List.replicate k .timeoutEpochBump) := by
  intro hiso
  have hmain := isolatedRun_from b (List.replicate k .timeoutEpochBump) initialState 1 0
    (by decide) (by decide) (balanced_replicate_bump b k _ _)
  have hlt := (hmain.mp hiso).1
  rw [List.count_replicate_self] at hlt
  omega

/-- 524288 bumps of a fresh, connected header: the run is balanced, yet it is
not isolated, and its last bump is the one that sets `DISCONNECTED`. -/
theorem bump_sets_disconnected :
    ∃ k, k = 2 ^ 19 ∧
      Balanced .shared initialState 1 (List.replicate k .timeoutEpochBump) ∧
      ¬IsolatedRun .shared initialState (List.replicate k .timeoutEpochBump) ∧
      run .shared initialState (List.replicate (k - 1) .timeoutEpochBump) &&&
        disconnectedMask = 0 ∧
      run .shared initialState (List.replicate k .timeoutEpochBump) &&&
        disconnectedMask = disconnectedMask := by
  obtain ⟨k, hk⟩ : ∃ k, k = 2 ^ 19 := ⟨_, rfl⟩
  refine ⟨k, hk, balanced_replicate_bump .shared k _ _, ?_, ?_, ?_⟩
  · exact not_isolatedRun_replicate_bump .shared (by rw [hk]; decide)
  · rw [run_replicate_bump, hk]; decide
  · rw [run_replicate_bump, hk]; decide

end Uvent.Net.StateWord
