import Mathlib.Data.BitVec
import Uvent.Net.DynamicBuffer

/-!
# The read loops of a TCP socket

`async_read` into a `DynamicBuffer`, `async_read` into plain memory and `read`, each as the
loop of its `recv` calls.  The kernel is what every call answers; it may depend on all that
came before.  Limits are 64-bit as in the source: `max_read_size - buffer.size()` wraps, and
the asynchronous loops compare with `static_cast<ssize_t>(max_read_size)`.

The loops log their calls of `recv`, and the module says with which limits they keep to what
they received.
-/

namespace Uvent.Net.ReadLoops

/-- What `recv` gives: bytes, 0, or -1 with one of the values of `errno`. -/
inductive Recv where
  | data (bytes : List Byte)
  | eof
  | eintr
  | eagain
  | error
  deriving DecidableEq, Repr

/-- `recv i len` is the answer to the `i`-th call if that asks for `len` bytes, and
`cancelRequested i` says that cancellation is requested once the coroutine runs again after
the `i`-th call. -/
structure Kernel where
  recv : Nat → Nat → Recv
  cancelRequested : Nat → Bool
  length_data : ∀ {i len bytes}, recv i len = .data bytes → 0 < bytes.length ∧ bytes.length ≤ len
  recv_zero : ∀ i, recv i 0 = .eof

/-- The local variables of a loop, with the `recv` calls so far: their lengths and
answers. -/
structure Loop (σ : Type) where
  sink : σ
  total : Int
  retries : Int
  log : List (Nat × Recv)

namespace Loop

variable {σ : Type}

def start (sink : σ) : Loop σ := ⟨sink, 0, 0, []⟩

def calls (s : Loop σ) : Nat := s.log.length

def received (len : Nat) (res : Recv) (s : Loop σ) : Loop σ :=
  { s with log := s.log ++ [(len, res)] }

def bytesOf : Nat × Recv → List Byte
  | (_, .data bytes) => bytes
  | _ => []

def bytes (s : Loop σ) : List Byte := s.log.flatMap bytesOf

def EndOfStream (s : Loop σ) : Prop := ∃ len, 0 < len ∧ (len, Recv.eof) ∈ s.log

def NothingAvailable (s : Loop σ) : Prop := ∃ len, (len, Recv.eagain) ∈ s.log

end Loop

inductive Turn (σ : Type) where
  | again (s : Loop σ)
  | done (r : Int) (s : Loop σ)

inductive Outcome where
  | running
  | returned (r : Int)
  deriving DecidableEq, Repr

def run {σ : Type} (turn : Loop σ → Turn σ) : Nat → Loop σ → Outcome × Loop σ
  | 0, s => (.running, s)
  | n + 1, s =>
      match turn s with
      | .again s' => run turn n s'
      | .done r s' => (.returned r, s')

/-- Where an asynchronous loop puts the bytes: how many of the remaining ones it asks for at
once, what it does before `recv`, and the bytes behind those it has. -/
structure Sink (σ : Type) where
  piece : Nat → Nat
  tail : σ → Nat → σ
  put : σ → List Byte → σ

/-- What the asynchronous loops do with the answer to a `recv` for `toRead` bytes.  After the
wake-up `total_read` is still 0, so the `break` comes back to the test of the inner loop. -/
def asyncAnswer {σ : Type} (sink : Sink σ) (maxRetries : Int) (k : Kernel) (toRead : Nat)
    (s : Loop σ) (res : Recv) : Turn σ :=
  let s' := { s.received toRead res with sink := sink.tail s.sink toRead }
  match res with
  | .data bytes =>
      let s'' := { s' with
        sink := sink.put s'.sink bytes
        total := s.total + bytes.length
        retries := 0 }
      if bytes.length < toRead then .done s''.total s'' else .again s''
  | .eof => .done s.total s'
  | .eintr =>
      if s.retries + 1 ≥ maxRetries then .done (-1) s'
      else .again { s' with retries := s.retries + 1 }
  | .eagain =>
      if 0 < s.total then .done s.total s'
      else if k.cancelRequested s.calls then .done (-1) s' else .again s'
  | .error => .done (-1) s'

def asyncTurn {σ : Type} (sink : Sink σ) (maxRetries : Int) (k : Kernel) (maxReadSize : BitVec 64)
    (s : Loop σ) : Turn σ :=
  if s.total < maxReadSize.toInt then
    let toRead := sink.piece (maxReadSize - BitVec.ofInt 64 s.total).toNat
    asyncAnswer sink maxRetries k toRead s (k.recv s.calls toRead)
  else .done s.total s

/-- `reserve_tail`, `recv` into the tail and `commit`. -/
def bufferSink (fresh : Nat → Byte) : Sink DynamicBuffer where
  piece remaining := if remaining > 16384 then 16384 else remaining
  tail b len := b.reserveTail fresh len
  put b bytes := (b.store bytes).commit bytes.length

structure Region where
  mem : Nat → Byte
  out : Nat

def Region.write (mem : Nat → Byte) (addr : Nat) (bytes : List Byte) : Nat → Byte := fun i =>
  if addr ≤ i then bytes[i - addr]?.getD (mem i) else mem i

def rawSink : Sink Region where
  piece remaining := remaining
  tail r _ := r
  put r bytes := ⟨Region.write r.mem r.out bytes, r.out + bytes.length⟩

section Functions

variable (fresh : Nat → Byte) (maxRetries : Int) (k : Kernel) (maxReadSize : BitVec 64)

/-- `async_read(DynamicBuffer&, size_t)`, up to `n` turns of its loop. -/
def asyncRead (b : DynamicBuffer) (n : Nat) : Outcome × Loop DynamicBuffer :=
  if maxReadSize = 0 then (.returned 0, .start b)
  else run (asyncTurn (bufferSink fresh) maxRetries k maxReadSize) n (.start b)

def asyncReadRaw (mem : Nat → Byte) (dst : Nat) (n : Nat) : Outcome × Loop Region :=
  if dst = 0 ∨ maxReadSize = 0 then (.returned 0, .start ⟨mem, dst⟩)
  else run (asyncTurn rawSink maxRetries k maxReadSize) n (.start ⟨mem, dst⟩)

/-- What `read` does with an answer.  The `continue` after `EINTR` skips the test of the
size. -/
def readAnswer (toRead : Nat) (s : Loop DynamicBuffer) (res : Recv) : Turn DynamicBuffer :=
  let s' := s.received toRead res
  match res with
  | .data bytes =>
      let s'' := { s' with
        sink := s.sink.append fresh bytes
        total := s.total + bytes.length
        retries := 0 }
      if maxReadSize.toNat ≤ s''.sink.size then .done s''.total s'' else .again s''
  | .eof => .done (if 0 < s.total then s.total else 0) s'
  | .eagain => .done s.total s'
  | .eintr =>
      if s.retries + 1 ≥ maxRetries then .done (-1) s'
      else .again { s' with retries := s.retries + 1 }
  | .error => .done (-1) s'

/-- `to_read` in `read`, for a buffer of the given size. -/
def toRead (maxReadSize : BitVec 64) (size : Nat) : Nat :=
  min 16384 (maxReadSize - BitVec.ofNat 64 size).toNat

def readTurn (s : Loop DynamicBuffer) : Turn DynamicBuffer :=
  let toRead := toRead maxReadSize s.sink.size
  readAnswer fresh maxRetries maxReadSize toRead s (k.recv s.calls toRead)

def read (b : DynamicBuffer) (n : Nat) : Outcome × Loop DynamicBuffer :=
  run (readTurn fresh maxRetries k maxReadSize) n (.start b)

end Functions

/-! ## What the loops should do -/

/-- An asynchronous read with the outcome `o`: the bytes received so far, and no others, are
appended. -/
structure AsyncRight {σ : Type} (appends : List Byte → σ → Prop) (maxReadSize : BitVec 64)
    (o : Outcome) (s : Loop σ) : Prop where
  appended : appends s.bytes s.sink
  count : ∀ r, o = .returned r → 0 ≤ r → r = s.bytes.length
  limit : s.bytes.length ≤ maxReadSize.toNat
  zero : o = .returned 0 → s.EndOfStream

structure ReadRight (b : DynamicBuffer) (maxReadSize : BitVec 64) (o : Outcome)
    (s : Loop DynamicBuffer) : Prop where
  appended : s.sink.contents = b.contents ++ s.bytes
  count : ∀ r, o = .returned r → 0 ≤ r → r = s.bytes.length
  limit : s.sink.size ≤ max b.size maxReadSize.toNat
  zero : o = .returned 0 → s.EndOfStream ∨ s.NothingAvailable ∨ maxReadSize.toNat ≤ b.size

/-- Before it gives any bytes to calls that ask for `len`, the kernel gives a result that ends
the loop, or `EINTR` up to the limit of retries. -/
def Quiet (maxRetries : Int) (k : Kernel) (len : Nat) : Prop :=
  ∀ i : Nat, i = 0 ∨ (i : Int) < maxRetries → (∀ j < i, k.recv j len = .eintr) →
    ∀ bytes, k.recv i len ≠ .data bytes

/-! ## Turns and runs -/

def Turn.Keeps {σ : Type} (I : Loop σ → Prop) (Q : Outcome → Loop σ → Prop) : Turn σ → Prop
  | .again s => I s
  | .done r s => Q (.returned r) s

theorem run_keeps {σ : Type} {turn : Loop σ → Turn σ} {I : Loop σ → Prop}
    {Q : Outcome → Loop σ → Prop} (hrunning : ∀ s, I s → Q .running s)
    (hturn : ∀ s, I s → (turn s).Keeps I Q) (n : Nat) {s : Loop σ} (h : I s) :
    Q (run turn n s).1 (run turn n s).2 := by
  induction n generalizing s with
  | zero => exact hrunning s h
  | succ n ih =>
      have hkeeps := hturn s h
      rw [run]
      cases hs : turn s with
      | again s' =>
          rw [hs] at hkeeps
          exact ih hkeeps
      | done r s' =>
          rw [hs] at hkeeps
          exact hkeeps

section Logs

variable {σ : Type} (s : Loop σ) (len : Nat)

theorem Loop.bytes_data (bytes : List Byte) :
    (s.received len (.data bytes)).bytes = s.bytes ++ bytes := by
  simp [Loop.bytes, Loop.received, Loop.bytesOf]

theorem Loop.bytes_received {res : Recv} (h : ∀ bytes, res ≠ .data bytes) :
    (s.received len res).bytes = s.bytes := by
  cases res with
  | data bytes => exact absurd rfl (h bytes)
  | _ => simp [Loop.bytes, Loop.received, Loop.bytesOf]

theorem Loop.mem_received (res : Recv) : (len, res) ∈ (s.received len res).log :=
  List.mem_append_right _ (List.mem_singleton_self _)

end Logs

/-! ## The asynchronous loops -/

/-- What a sink keeps: it asks for bytes that remain, and bytes that fit into what was asked
for go behind those it has. -/
structure Sink.Lawful {σ : Type} (sink : Sink σ) (appends : List Byte → σ → Prop) : Prop where
  piece_le : ∀ r, sink.piece r ≤ r
  piece_pos : ∀ r, 0 < r → 0 < sink.piece r
  tail : ∀ {l s} len, appends l s → appends l (sink.tail s len)
  put : ∀ {l s bytes len}, appends l s → bytes.length ≤ len →
    appends (l ++ bytes) (sink.put (sink.tail s len) bytes)

theorem lawful_bufferSink (fresh : Nat → Byte) (b : DynamicBuffer) :
    (bufferSink fresh).Lawful fun l b' => b'.contents = b.contents ++ l where
  piece_le := by
    intro r
    simp only [bufferSink]
    split <;> omega
  piece_pos := by
    intro r hr
    simp only [bufferSink]
    split <;> omega
  tail := by
    intro l b' len h
    exact (b'.contents_reserveTail fresh len).trans h
  put := by
    intro l b' bytes len h hlen
    have hput := b'.contents_received fresh hlen
    rw [h, List.append_assoc] at hput
    exact hput

theorem Region.write_nil (mem : Nat → Byte) (addr : Nat) : Region.write mem addr [] = mem := by
  funext i
  simp [Region.write]

theorem Region.write_append (mem : Nat → Byte) (addr : Nat) (l l' : List Byte) :
    Region.write (Region.write mem addr l) (addr + l.length) l' =
      Region.write mem addr (l ++ l') := by
  funext i
  unfold Region.write
  by_cases hlow : addr ≤ i
  · rw [if_pos hlow, if_pos hlow, List.getElem?_append]
    by_cases hin : i - addr < l.length
    · rw [if_pos hin, if_neg (by omega)]
    · have hnone : l[i - addr]? = none := List.getElem?_eq_none (by omega)
      have hsub : i - (addr + l.length) = i - addr - l.length := by omega
      rw [if_neg hin, if_pos (by omega), hnone, hsub]
      rfl
  · rw [if_neg hlow, if_neg hlow, if_neg (by omega)]

theorem lawful_rawSink (mem : Nat → Byte) (dst : Nat) :
    rawSink.Lawful fun l r => r = ⟨Region.write mem dst l, dst + l.length⟩ where
  piece_le r := Nat.le_refl r
  piece_pos r hr := hr
  tail _ h := h
  put := by
    intro l r bytes len h _
    change Region.mk (Region.write r.mem r.out bytes) (r.out + bytes.length) = _
    rw [h, Region.write_append, List.length_append, Nat.add_assoc]

section Async

variable {σ : Type} {sink : Sink σ} {appends : List Byte → σ → Prop} {maxRetries : Int}
  {k : Kernel} {maxReadSize : BitVec 64} {s : Loop σ}

structure Reading (appends : List Byte → σ → Prop) (maxReadSize : BitVec 64) (s : Loop σ) :
    Prop where
  appended : appends s.bytes s.sink
  total : s.total = s.bytes.length
  limit : s.bytes.length ≤ maxReadSize.toNat

theorem Reading.remaining (h : Reading appends maxReadSize s) (hmax : maxReadSize.toNat < 2 ^ 63) :
    maxReadSize.toInt = maxReadSize.toNat ∧
      (maxReadSize - BitVec.ofInt 64 s.total).toNat = maxReadSize.toNat - s.bytes.length := by
  have hlimit := h.limit
  refine ⟨BitVec.toInt_eq_toNat_of_lt (by omega), ?_⟩
  rw [h.total, BitVec.ofInt_natCast]
  have hsmall : (BitVec.ofNat 64 s.bytes.length).toNat = s.bytes.length := by
    rw [BitVec.toNat_ofNat]
    exact Nat.mod_eq_of_lt (by omega)
  rw [BitVec.toNat_sub_of_le (by rw [BitVec.le_def, hsmall]; exact hlimit), hsmall]

theorem Reading.unchanged (h : Reading appends maxReadSize s) (hsink : sink.Lawful appends)
    (len : Nat) (res : Recv) (hres : ∀ bytes, res ≠ .data bytes) (retries : Int) :
    Reading appends maxReadSize
      { s.received len res with sink := sink.tail s.sink len, retries := retries } := by
  have hbytes := s.bytes_received len hres
  exact {
    appended := by
      change appends (s.received len res).bytes (sink.tail s.sink len)
      rw [hbytes]
      exact hsink.tail len h.appended
    total := h.total.trans (congrArg (fun l => (l.length : Int)) hbytes.symm)
    limit := (congrArg List.length hbytes).trans_le h.limit }

/-- A turn that returns -1, or the bytes so far if these are some or the stream has ended. -/
theorem Reading.right (h : Reading appends maxReadSize s) {r : Int} (hr : r = -1 ∨ r = s.total)
    (hzero : r = 0 → s.EndOfStream) : AsyncRight appends maxReadSize (.returned r) s where
  appended := h.appended
  count := by
    intro r' hr' hnonneg
    cases hr'
    rcases hr with hneg | htotal
    · omega
    · rw [htotal, h.total]
  limit := h.limit
  zero := fun hr => hzero (Outcome.returned.inj hr)

theorem Reading.answer (h : Reading appends maxReadSize s) (hsink : sink.Lawful appends) {len : Nat}
    (hpos : 0 < len) (hlen : len ≤ maxReadSize.toNat - s.bytes.length) :
    (asyncAnswer sink maxRetries k len s (k.recv s.calls len)).Keeps (Reading appends maxReadSize)
      (AsyncRight appends maxReadSize) := by
  have htotal := h.total
  cases hres : k.recv s.calls len with
  | data bytes =>
      obtain ⟨hsome, hfit⟩ := k.length_data hres
      have hlimit := h.limit
      have hbytes := s.bytes_data len bytes
      have hnext : Reading appends maxReadSize { s.received len (.data bytes) with
          sink := sink.put (sink.tail s.sink len) bytes
          total := s.total + bytes.length
          retries := 0 } := {
        appended := by
          change appends (s.received len (.data bytes)).bytes _
          rw [hbytes]
          exact hsink.put h.appended hfit
        total := by
          change s.total + bytes.length = ((s.received len (.data bytes)).bytes.length : Int)
          rw [hbytes, List.length_append, htotal]
          rfl
        limit := by
          change (s.received len (.data bytes)).bytes.length ≤ maxReadSize.toNat
          rw [hbytes, List.length_append]
          omega }
      rw [asyncAnswer]
      split
      · exact hnext.right (Or.inr rfl) fun hr => by
          change s.total + bytes.length = 0 at hr
          omega
      · exact hnext
  | eof =>
      have hnext := h.unchanged hsink len .eof nofun s.retries
      exact hnext.right (Or.inr rfl) fun _ => ⟨len, hpos, s.mem_received len _⟩
  | eintr =>
      rw [asyncAnswer]
      split
      · have hnext := h.unchanged hsink len .eintr nofun s.retries
        exact hnext.right (Or.inl rfl) nofun
      · exact h.unchanged hsink len .eintr nofun (s.retries + 1)
  | eagain =>
      have hnext := h.unchanged hsink len .eagain nofun s.retries
      rw [asyncAnswer]
      split
      case isTrue hsome => exact hnext.right (Or.inr rfl) fun hr => absurd hr (by omega)
      case isFalse =>
        split
        · exact hnext.right (Or.inl rfl) nofun
        · exact hnext
  | error =>
      have hnext := h.unchanged hsink len .error nofun s.retries
      exact hnext.right (Or.inl rfl) nofun

theorem Reading.turn (h : Reading appends maxReadSize s) (hsink : sink.Lawful appends)
    (hpos : 0 < maxReadSize.toNat) (hmax : maxReadSize.toNat < 2 ^ 63) :
    (asyncTurn sink maxRetries k maxReadSize s).Keeps (Reading appends maxReadSize)
      (AsyncRight appends maxReadSize) := by
  obtain ⟨hint, hremaining⟩ := h.remaining hmax
  have htotal := h.total
  unfold asyncTurn
  rw [hint, hremaining]
  split
  case isTrue hroom =>
    have hlen := hsink.piece_le (maxReadSize.toNat - s.bytes.length)
    have hlenpos := hsink.piece_pos (maxReadSize.toNat - s.bytes.length) (by omega)
    exact h.answer hsink hlenpos hlen
  case isFalse hfull => exact h.right (Or.inr rfl) fun hr => by omega

/-- With a limit that is positive as an `ssize_t` the asynchronous loops are right. -/
theorem asyncRight_of_lt (hsink : sink.Lawful appends) (hpos : 0 < maxReadSize.toNat)
    (hmax : maxReadSize.toNat < 2 ^ 63) {dst : σ} (hdst : appends [] dst) (n : Nat) :
    AsyncRight appends maxReadSize (run (asyncTurn sink maxRetries k maxReadSize) n (.start dst)).1
      (run (asyncTurn sink maxRetries k maxReadSize) n (.start dst)).2 := by
  have hstart : Reading appends maxReadSize (.start dst) := ⟨hdst, rfl, Nat.zero_le _⟩
  refine run_keeps (fun s h => ?_) (fun s h => h.turn hsink hpos hmax) n hstart
  exact ⟨h.appended, nofun, h.limit, nofun⟩

/-- A larger limit is negative as an `ssize_t`, and the loop returns 0 before its first
`recv`. -/
theorem asyncTurn_of_le (hmax : 2 ^ 63 ≤ maxReadSize.toNat) (dst : σ) :
    asyncTurn sink maxRetries k maxReadSize (.start dst) = .done 0 (.start dst) := by
  have hlt := maxReadSize.isLt
  have hmsb : maxReadSize.msb = true := by
    rw [BitVec.msb_eq_decide]
    exact decide_eq_true hmax
  have hneg := BitVec.toInt_neg_of_msb_true hmsb
  exact if_neg (by
    change ¬(0 : Int) < maxReadSize.toInt
    omega)

theorem not_right_start (dst : σ) : ¬AsyncRight appends maxReadSize (.returned 0) (.start dst) := by
  intro h
  obtain ⟨_, _, hmem⟩ := h.zero rfl
  exact absurd hmem List.not_mem_nil

theorem not_right_of_le (hmax : 2 ^ 63 ≤ maxReadSize.toNat) (dst : σ) :
    ¬AsyncRight appends maxReadSize (run (asyncTurn sink maxRetries k maxReadSize) 1 (.start dst)).1
      (run (asyncTurn sink maxRetries k maxReadSize) 1 (.start dst)).2 := by
  rw [run, asyncTurn_of_le hmax]
  exact not_right_start dst

end Async

/-! ## The loop of `read` -/

section Sync

variable {fresh : Nat → Byte} {maxRetries : Int} {k : Kernel} {maxReadSize : BitVec 64}
  {b : DynamicBuffer} {s : Loop DynamicBuffer}

/-- The invariant of `read` with a buffer that may grow up to the limit: after the first bytes
it is below the limit at the head of the loop. -/
structure Growing (b : DynamicBuffer) (maxReadSize : BitVec 64) (s : Loop DynamicBuffer) :
    Prop where
  appended : s.sink.contents = b.contents ++ s.bytes
  total : s.total = s.bytes.length
  limit : s.sink.size ≤ maxReadSize.toNat
  below : s.bytes = [] ∨ s.sink.size < maxReadSize.toNat

theorem size_eq_of_contents {b b' : DynamicBuffer} {l : List Byte}
    (h : b'.contents = b.contents ++ l) : b'.size = b.size + l.length := by
  rw [← b'.length_contents, h, List.length_append, b.length_contents]

theorem toRead_of_le {n : Nat} (h : n ≤ maxReadSize.toNat) :
    toRead maxReadSize n = min 16384 (maxReadSize.toNat - n) := by
  have hlt := maxReadSize.isLt
  have hsmall : (BitVec.ofNat 64 n).toNat = n := by
    rw [BitVec.toNat_ofNat]
    exact Nat.mod_eq_of_lt (by omega)
  rw [toRead, BitVec.toNat_sub_of_le (by rw [BitVec.le_def, hsmall]; exact h), hsmall]

/-- Above the limit the room wraps round. -/
theorem toRead_pos_of_lt {n : Nat} (h : maxReadSize.toNat < n) (hn : n < 2 ^ 64) :
    0 < toRead maxReadSize n := by
  rw [toRead, BitVec.toNat_sub, BitVec.toNat_ofNat, Nat.mod_eq_of_lt hn]
  omega

theorem Growing.unchanged (h : Growing b maxReadSize s) (len : Nat) (res : Recv)
    (hres : ∀ bytes, res ≠ .data bytes) (retries : Int) :
    Growing b maxReadSize { s.received len res with retries := retries } := by
  have hbytes := s.bytes_received len hres
  exact {
    appended := h.appended.trans (congrArg (b.contents ++ ·) hbytes.symm)
    total := h.total.trans (congrArg (fun l => (l.length : Int)) hbytes.symm)
    limit := h.limit
    below := h.below.imp hbytes.trans id }

theorem Growing.right (h : Growing b maxReadSize s) {r : Int} (hr : r = -1 ∨ r = s.total)
    (hzero : r = 0 → s.EndOfStream ∨ s.NothingAvailable ∨ maxReadSize.toNat ≤ b.size) :
    ReadRight b maxReadSize (.returned r) s where
  appended := h.appended
  count := by
    intro r' hr' hnonneg
    cases hr'
    rcases hr with hneg | htotal
    · omega
    · rw [htotal, h.total]
  limit := h.limit.trans (Nat.le_max_right _ _)
  zero := fun hr => hzero (Outcome.returned.inj hr)

theorem Growing.answer (h : Growing b maxReadSize s) {len : Nat}
    (hlen : len = min 16384 (maxReadSize.toNat - s.sink.size)) :
    (readAnswer fresh maxRetries maxReadSize len s (k.recv s.calls len)).Keeps
      (Growing b maxReadSize) (ReadRight b maxReadSize) := by
  have htotal := h.total
  have hlimit := h.limit
  cases hres : k.recv s.calls len with
  | data bytes =>
      obtain ⟨hsome, hfit⟩ := k.length_data hres
      have hbytes := s.bytes_data len bytes
      have happended : (s.sink.append fresh bytes).contents =
          b.contents ++ (s.received len (.data bytes)).bytes := by
        rw [DynamicBuffer.contents_append, h.appended, hbytes, List.append_assoc]
      have hcount :
          s.total + bytes.length = ((s.received len (.data bytes)).bytes.length : Int) := by
        rw [hbytes, List.length_append, htotal]
        rfl
      have hsize : (s.sink.append fresh bytes).size ≤ maxReadSize.toNat := by
        rw [DynamicBuffer.size_append]
        omega
      rw [readAnswer]
      split
      case isTrue =>
        exact {
          appended := happended
          count := by
            intro r hr _
            cases hr
            exact hcount
          limit := hsize.trans (Nat.le_max_right _ _)
          zero := by
            intro hr
            have hzero : s.total + bytes.length = 0 := Outcome.returned.inj hr
            omega }
      case isFalse hbelow =>
        exact {
          appended := happended
          total := hcount
          limit := hsize
          below := Or.inr (Nat.lt_of_not_le hbelow) }
  | eof =>
      have hnext := h.unchanged len .eof nofun s.retries
      have hif : (if 0 < s.total then s.total else 0) = s.total := by
        split <;> omega
      refine hnext.right (Or.inr hif) fun hr => ?_
      -- a call that asks for nothing gets 0, and it is the first one
      by_cases hpos : 0 < len
      · exact Or.inl ⟨len, hpos, s.mem_received len _⟩
      · have hfull : s.bytes = [] := h.below.resolve_right (by omega)
        have hsize := size_eq_of_contents h.appended
        rw [hfull] at hsize
        exact Or.inr (Or.inr (by simp at hsize; omega))
  | eintr =>
      rw [readAnswer]
      split
      · exact (h.unchanged len .eintr nofun s.retries).right (Or.inl rfl) nofun
      · exact h.unchanged len .eintr nofun (s.retries + 1)
  | eagain =>
      have hnext := h.unchanged len .eagain nofun s.retries
      exact hnext.right (Or.inr rfl) fun _ => Or.inr (Or.inl ⟨len, s.mem_received len _⟩)
  | error =>
      exact (h.unchanged len .error nofun s.retries).right (Or.inl rfl) nofun

theorem Growing.turn (h : Growing b maxReadSize s) :
    (readTurn fresh maxRetries k maxReadSize s).Keeps (Growing b maxReadSize)
      (ReadRight b maxReadSize) :=
  h.answer (toRead_of_le h.limit)

theorem readRight_of_le (hsize : b.size ≤ maxReadSize.toNat) (n : Nat) :
    ReadRight b maxReadSize (read fresh maxRetries k maxReadSize b n).1
      (read fresh maxRetries k maxReadSize b n).2 := by
  have hstart : Growing b maxReadSize (.start b) :=
    ⟨(List.append_nil _).symm, rfl, hsize, Or.inl rfl⟩
  refine run_keeps (fun s h => ?_) (fun s h => h.turn) n hstart
  exact ⟨h.appended, nofun, h.limit.trans (Nat.le_max_right _ _), nofun⟩

/-- The state of `read` after `i` calls for `len` bytes that were interrupted. -/
structure Interrupted (b : DynamicBuffer) (maxRetries : Int) (k : Kernel) (len i : Nat)
    (s : Loop DynamicBuffer) : Prop where
  sink : s.sink = b
  total : s.total = 0
  bytes : s.bytes = []
  calls : s.calls = i
  retries : s.retries = i
  retry : i = 0 ∨ (i : Int) < maxRetries
  eintr : ∀ j < i, k.recv j len = .eintr

theorem interrupted_start (len : Nat) : Interrupted b maxRetries k len 0 (.start b) :=
  ⟨rfl, rfl, rfl, rfl, rfl, Or.inl rfl, nofun⟩

namespace Interrupted

variable {len i : Nat}

theorem next (h : Interrupted b maxRetries k len i s) (hres : k.recv i len = .eintr)
    (hretry : ¬s.retries + 1 ≥ maxRetries) : Interrupted b maxRetries k len (i + 1)
      { s.received len .eintr with retries := s.retries + 1 } where
  sink := h.sink
  total := h.total
  bytes := by
    have hbytes : (s.received len .eintr).bytes = s.bytes := s.bytes_received len nofun
    exact hbytes.trans h.bytes
  calls := by
    change (s.log ++ [(len, Recv.eintr)]).length = i + 1
    rw [List.length_append]
    exact congrArg (· + 1) h.calls
  retries := congrArg (· + 1) h.retries
  retry := by
    have hretries := h.retries
    exact Or.inr (by omega)
  eintr := by
    intro j hj
    rcases Nat.lt_succ_iff_lt_or_eq.mp hj with hlt | heq
    · exact h.eintr j hlt
    · rw [heq, hres]

theorem right (h : Interrupted b maxRetries k len i s) (res : Recv)
    (hres : ∀ bytes, res ≠ .data bytes) {r : Int} (hr : r = -1 ∨ r = 0)
    (hzero : r = 0 → (s.received len res).EndOfStream ∨ (s.received len res).NothingAvailable) :
    ReadRight b maxReadSize (.returned r) (s.received len res) := by
  have hbytes := (s.bytes_received len hres).trans h.bytes
  exact {
    appended := by
      rw [hbytes, List.append_nil]
      exact congrArg DynamicBuffer.contents h.sink
    count := by
      intro r' hr' hnonneg
      cases hr'
      rw [hbytes]
      rcases hr with hneg | hzero
      · omega
      · exact hzero
    limit := by
      change s.sink.size ≤ _
      rw [h.sink]
      exact Nat.le_max_left _ _
    zero := fun hr => or_assoc.mp (Or.inl (hzero (Outcome.returned.inj hr))) }

theorem turn (h : Interrupted b maxRetries k len i s) (hlen : len = toRead maxReadSize b.size)
    (hpos : 0 < len) (hquiet : Quiet maxRetries k len) :
    (readTurn fresh maxRetries k maxReadSize s).Keeps
      (fun s => ∃ i, Interrupted b maxRetries k len i s) (ReadRight b maxReadSize) := by
  rw [readTurn, h.sink, ← hlen, h.calls]
  cases hres : k.recv i len with
  | data bytes => exact absurd hres (hquiet i h.retry h.eintr bytes)
  | eof =>
      have hif : (if 0 < s.total then s.total else 0) = 0 := by rw [h.total]; rfl
      exact h.right .eof nofun (Or.inr hif) fun _ => Or.inl ⟨len, hpos, s.mem_received len _⟩
  | eintr =>
      simp only [readAnswer]
      split
      case isTrue => exact h.right .eintr nofun (Or.inl rfl) nofun
      case isFalse hretry => exact ⟨i + 1, h.next hres hretry⟩
  | eagain =>
      exact h.right .eagain nofun (Or.inr h.total) fun _ => Or.inr ⟨len, s.mem_received len _⟩
  | error => exact h.right .error nofun (Or.inl rfl) nofun

/-- Where a call gives bytes after `d` more interrupted ones, the buffer outgrows its size,
which is above the limit. -/
theorem not_right (h : Interrupted b maxRetries k len i s) (hlen : len = toRead maxReadSize b.size)
    (hover : maxReadSize.toNat < b.size) {d : Nat} {bytes : List Byte}
    (hretry : i + d = 0 ∨ ((i + d : Nat) : Int) < maxRetries)
    (heintr : ∀ j < i + d, k.recv j len = .eintr) (hdata : k.recv (i + d) len = .data bytes) :
    ¬ReadRight b maxReadSize (run (readTurn fresh maxRetries k maxReadSize) (d + 1) s).1
      (run (readTurn fresh maxRetries k maxReadSize) (d + 1) s).2 := by
  induction d generalizing i s with
  | zero =>
      have hdata' : k.recv i len = .data bytes := hdata
      have hsome := (k.length_data hdata).1
      have hturn : readTurn fresh maxRetries k maxReadSize s = .done (s.total + bytes.length)
          { s.received len (.data bytes) with
            sink := s.sink.append fresh bytes
            total := s.total + bytes.length
            retries := 0 } := by
        have hfull : maxReadSize.toNat ≤ (b.append fresh bytes).size := by
          rw [DynamicBuffer.size_append]
          omega
        rw [readTurn, h.sink, ← hlen, h.calls, hdata']
        simp only [readAnswer, Loop.received, h.sink, if_pos hfull]
      rw [run, hturn]
      intro hright
      have hlimit := hright.limit
      change (s.sink.append fresh bytes).size ≤ _ at hlimit
      rw [DynamicBuffer.size_append, h.sink, Nat.max_eq_left (Nat.le_of_lt hover)] at hlimit
      omega
  | succ d ih =>
      have hres := heintr i (by omega)
      have hretries := h.retries
      have hmore : ¬s.retries + 1 ≥ maxRetries := by omega
      have hturn : readTurn fresh maxRetries k maxReadSize s =
          .again { s.received len .eintr with retries := s.retries + 1 } := by
        rw [readTurn, h.sink, ← hlen, h.calls, hres]
        exact if_neg hmore
      have hsum : i + (d + 1) = i + 1 + d := by omega
      rw [hsum] at hretry heintr hdata
      rw [run, hturn]
      exact ih (h.next hres hmore) hretry heintr hdata

end Interrupted

theorem read_right_iff_of_lt (hover : maxReadSize.toNat < b.size) (hsize : b.size < 2 ^ 64) :
    (∀ n, ReadRight b maxReadSize (read fresh maxRetries k maxReadSize b n).1
        (read fresh maxRetries k maxReadSize b n).2) ↔
      Quiet maxRetries k (toRead maxReadSize b.size) := by
  have hpos := toRead_pos_of_lt hover hsize
  constructor
  · intro hright i hretry heintr bytes hdata
    rw [← Nat.zero_add i] at hretry heintr hdata
    exact (interrupted_start _).not_right rfl hover hretry heintr hdata (hright (i + 1))
  · intro hquiet n
    have hstart : ∃ i, Interrupted b maxRetries k (toRead maxReadSize b.size) i (.start b) :=
      ⟨0, interrupted_start _⟩
    refine run_keeps (I := fun s => ∃ i, Interrupted b maxRetries k (toRead maxReadSize b.size) i s)
      (fun s h => ?_) (fun s h => ?_) n hstart
    · obtain ⟨i, h⟩ := h
      have hsame : s.sink.contents = b.contents := congrArg DynamicBuffer.contents h.sink
      refine ⟨by rw [hsame, h.bytes, List.append_nil], nofun, ?_, nofun⟩
      rw [h.sink]
      exact Nat.le_max_left _ _
    · obtain ⟨i, h⟩ := h
      exact h.turn rfl hpos hquiet

/-- A turn of `read` that goes on has used up room below the limit, or a retry. -/
theorem readTurn_again {s' : Loop DynamicBuffer}
    (h : readTurn fresh maxRetries k maxReadSize s = .again s') :
    maxReadSize.toNat - s'.sink.size < maxReadSize.toNat - s.sink.size ∨
      s'.sink = s.sink ∧ (maxRetries - s'.retries).toNat < (maxRetries - s.retries).toNat := by
  unfold readTurn at h
  generalize hlen : toRead maxReadSize s.sink.size = len at h
  cases hres : k.recv s.calls len with
  | data bytes =>
      have hsome := (k.length_data hres).1
      simp only [hres, readAnswer] at h
      split at h
      case isTrue => cases h
      case isFalse hbelow =>
        cases h
        rw [DynamicBuffer.size_append] at hbelow ⊢
        exact Or.inl (by omega)
  | eintr =>
      simp only [hres, readAnswer] at h
      split at h
      case isTrue => cases h
      case isFalse hretry =>
        cases h
        exact Or.inr ⟨rfl, by simp only; omega⟩
  | _ =>
      simp only [hres, readAnswer] at h
      cases h

/-- `read` returns, whatever the kernel does. -/
theorem read_returns (s : Loop DynamicBuffer) :
    ∃ n r, (run (readTurn fresh maxRetries k maxReadSize) n s).1 = .returned r := by
  cases hturn : readTurn fresh maxRetries k maxReadSize s with
  | done r s' => exact ⟨1, r, by rw [run, hturn]⟩
  | again s' =>
      have hless := readTurn_again hturn
      obtain ⟨n, r, hrun⟩ := read_returns s'
      exact ⟨n + 1, r, by rw [run, hturn, hrun]⟩
termination_by (maxReadSize.toNat - s.sink.size, (maxRetries - s.retries).toNat)
decreasing_by
  rcases hless with hroom | ⟨hsink, hretries⟩
  · exact Prod.Lex.left _ _ hroom
  · rw [hsink]
    exact Prod.Lex.right _ hretries

end Sync

/-! ## When the reads are right -/

/-- The asynchronous reads are right for the limits that are not negative as an `ssize_t`, and
`read` for a buffer that is not above the limit, or where the kernel has no bytes for it. -/
theorem reads_right_iff {maxReadSize : BitVec 64} (hmax : maxReadSize ≠ 0) (fresh : Nat → Byte)
    (maxRetries : Int) (k : Kernel) {b : DynamicBuffer} (hsize : b.size < 2 ^ 64)
    (mem : Nat → Byte) (dst : Nat) :
    ((∀ n, AsyncRight (fun l b' => b'.contents = b.contents ++ l) maxReadSize
        (asyncRead fresh maxRetries k maxReadSize b n).1
        (asyncRead fresh maxRetries k maxReadSize b n).2) ↔
      maxReadSize.toNat < 2 ^ 63) ∧
    ((∀ n, AsyncRight (fun l r => r = ⟨Region.write mem dst l, dst + l.length⟩) maxReadSize
        (asyncReadRaw maxRetries k maxReadSize mem dst n).1
        (asyncReadRaw maxRetries k maxReadSize mem dst n).2) ↔
      dst ≠ 0 ∧ maxReadSize.toNat < 2 ^ 63) ∧
    ((∀ n, ReadRight b maxReadSize (read fresh maxRetries k maxReadSize b n).1
        (read fresh maxRetries k maxReadSize b n).2) ↔
      b.size ≤ maxReadSize.toNat ∨ Quiet maxRetries k (toRead maxReadSize b.size)) := by
  have hpos : 0 < maxReadSize.toNat := by
    refine Nat.pos_of_ne_zero fun hzero => hmax (BitVec.eq_of_toNat_eq hzero)
  refine ⟨?_, ?_, ?_⟩
  · simp only [asyncRead, if_neg hmax]
    constructor
    · intro hright
      by_contra hge
      exact not_right_of_le (Nat.le_of_not_lt hge) b (hright 1)
    · intro hlt n
      exact asyncRight_of_lt (lawful_bufferSink fresh b) hpos hlt (List.append_nil _).symm n
  · by_cases hdst : dst = 0
    · simp only [asyncReadRaw, hdst, true_or, if_true]
      exact iff_of_false (fun hright => not_right_start _ (hright 0)) fun h => h.1 rfl
    · simp only [asyncReadRaw, if_neg (not_or.mpr ⟨hdst, hmax⟩)]
      constructor
      · intro hright
        refine ⟨hdst, ?_⟩
        by_contra hge
        exact not_right_of_le (Nat.le_of_not_lt hge) _ (hright 1)
      · intro hlt n
        have hstart : Region.mk mem dst = ⟨Region.write mem dst [], dst⟩ := by
          rw [Region.write_nil]
        exact asyncRight_of_lt (lawful_rawSink mem dst) hpos hlt.2 hstart n
  · by_cases hle : b.size ≤ maxReadSize.toNat
    · exact iff_of_true (readRight_of_le hle) (Or.inl hle)
    · rw [read_right_iff_of_lt (Nat.lt_of_not_le hle) hsize]
      exact ⟨Or.inr, fun h => h.resolve_left hle⟩

def oneByte : Kernel where
  recv _ len := if len = 0 then .eof else .data [0]
  cancelRequested _ := false
  length_data := by
    intro i len bytes h
    split at h
    case isTrue => cases h
    case isFalse hne =>
      cases h
      exact ⟨Nat.one_pos, Nat.one_le_iff_ne_zero.mpr hne⟩
  recv_zero _ := rfl

/-- With a limit of 4 the bytes go behind those that are there. -/
theorem right_up_to_four :
    AsyncRight (fun l b' => b'.contents = DynamicBuffer.empty.contents ++ l) 4
      (asyncRead (fun _ => 0) 100 oneByte 4 .empty 5).1
      (asyncRead (fun _ => 0) 100 oneByte 4 .empty 5).2 := by
  exact (reads_right_iff (by decide) (fun _ => 0) 100 oneByte (b := .empty) (by decide)
    (fun _ => 0) 1).1.mpr (by decide) 5

/-- A buffer of two bytes is read into with a limit of one, and a limit of 2^63 reads
nothing. -/
theorem limits_missed :
    (¬∀ n, ReadRight ⟨[0, 0], 2, by decide⟩ 1
      (read (fun _ => 0) 100 oneByte 1 ⟨[0, 0], 2, by decide⟩ n).1
      (read (fun _ => 0) 100 oneByte 1 ⟨[0, 0], 2, by decide⟩ n).2) ∧
    ¬∀ n, AsyncRight (fun l b' => b'.contents = DynamicBuffer.empty.contents ++ l)
      0x8000000000000000
      (asyncRead (fun _ => 0) 100 oneByte 0x8000000000000000 .empty n).1
      (asyncRead (fun _ => 0) 100 oneByte 0x8000000000000000 .empty n).2 := by
  constructor
  · intro hright
    exact absurd (hright 1).limit (by decide)
  · intro hright
    have hne : (0x8000000000000000 : BitVec 64) ≠ 0 := by decide
    simp only [asyncRead, if_neg hne] at hright
    exact not_right_of_le (by decide) _ (hright 1)

end Uvent.Net.ReadLoops
