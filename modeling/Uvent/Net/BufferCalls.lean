import Mathlib.Data.List.TakeDrop
import Mathlib.Data.Nat.Init
import Uvent.Net.DynamicBuffer

/-!
# Calls of the byte buffer with any size

The calls of `DynamicBuffer` in the arithmetic of `size_t`, where `size_ + len` and the doubling
of the capacity wrap.  A call ends, or throws what `operator new` throws, or writes outside the
block, or never leaves the loop of `grow_`.  As long as no size goes beyond `2 ^ 63` they are the
calls of the unbounded model.
-/

namespace Uvent.Net.BufferCalls

inductive Outcome where
  | done (b : DynamicBuffer)
  | badAlloc
  | overrun
  | endless

def Outcome.andThen : Outcome → (DynamicBuffer → Outcome) → Outcome
  | .done b, f => f b
  | .badAlloc, _ => .badAlloc
  | .overrun, _ => .overrun
  | .endless, _ => .endless

/-- `operator new` for a size: it throws, or the memory holds arbitrary bytes. -/
abbrev Memory := Nat → Option (Nat → Byte)

/-! ### The calls -/

/-- `while (cap < need) cap <<= 1;`, in at most `fuel` tests. -/
def growLoop (need : Nat) : Nat → Nat → Option Nat
  | 0, _ => none
  | fuel + 1, cap => if cap < need then growLoop need fuel (cap * 2 % 2 ^ 64) else some cap

/-- `grow_`.  After 64 doublings the capacity is zero and stays so. -/
def grow (mem : Memory) (b : DynamicBuffer) (need : Nat) : Outcome :=
  match growLoop need 65 (if b.cap = 0 then 4096 else b.cap) with
  | none => .endless
  | some cap =>
      match mem cap with
      | none => .badAlloc
      | some fresh =>
          if cap < b.size then .overrun
          else
            .done
              { block := b.contents ++ (List.range' b.size (cap - b.size)).map fresh
                size := b.size
                size_le := by
                  rw [List.length_append, DynamicBuffer.length_contents]
                  exact Nat.le_add_right _ _ }

def reserve (mem : Memory) (b : DynamicBuffer) (n : Nat) : Outcome :=
  if b.cap < n then grow mem b n else .done b

def reserveTail (mem : Memory) (b : DynamicBuffer) (len : Nat) : Outcome :=
  let need := (b.size + len) % 2 ^ 64
  if b.cap < need then grow mem b need else .done b

def commit (b : DynamicBuffer) (n : Nat) : DynamicBuffer where
  block := b.block
  size := if b.cap < (b.size + n) % 2 ^ 64 then b.cap else (b.size + n) % 2 ^ 64
  size_le := by
    unfold DynamicBuffer.cap
    split <;> omega

/-- The bytes of `src` are not in the buffer itself. -/
def append (mem : Memory) (b : DynamicBuffer) (src : List Byte) : Outcome :=
  (reserveTail mem b src.length).andThen fun b' =>
    if b'.cap < b'.size + src.length then .overrun
    else .done (commit (b'.store src) src.length)

def appendRaw (mem : Memory) (b : DynamicBuffer) (len : Nat) : Outcome :=
  (reserveTail mem b len).andThen fun b' => .done (commit b' len)

def shrink (b : DynamicBuffer) (newSize : Nat) : DynamicBuffer where
  block := b.block
  size := if newSize < b.size then newSize else b.size
  size_le := by
    have hle := b.size_le
    split <;> omega

def clear (b : DynamicBuffer) : DynamicBuffer := ⟨b.block, 0, Nat.zero_le _⟩

def write (b : DynamicBuffer) (i : Nat) (v : Byte) : DynamicBuffer where
  block := b.block.set i v
  size := b.size
  size_le := by
    rw [List.length_set]
    exact b.size_le

inductive Call where
  | reserve (n : BitVec 64)
  | reserveTail (len : BitVec 64)
  | commit (n : BitVec 64)
  | append (src : List Byte) (word : src.length < 2 ^ 64)
  | appendRaw (len : BitVec 64)
  | shrink (newSize : BitVec 64)
  | clear
  | write (i : Nat) (v : Byte)

def Call.run (mem : Memory) (b : DynamicBuffer) : Call → Outcome
  | .reserve n => BufferCalls.reserve mem b n.toNat
  | .reserveTail len => BufferCalls.reserveTail mem b len.toNat
  | .commit n => .done (BufferCalls.commit b n.toNat)
  | .append src _ => BufferCalls.append mem b src
  | .appendRaw len => BufferCalls.appendRaw mem b len.toNat
  | .shrink newSize => .done (BufferCalls.shrink b newSize.toNat)
  | .clear => .done (BufferCalls.clear b)
  | .write i v => .done (BufferCalls.write b i v)

/-! ### A list of bytes with room behind it -/

structure Bytes where
  contents : List Byte
  room : List Byte

def Call.Effect (x y : Bytes) : Call → Prop
  | .reserve n => y.contents = x.contents ∧ n.toNat ≤ y.contents.length + y.room.length
  | .reserveTail len => y.contents = x.contents ∧ len.toNat ≤ y.room.length
  | .commit n => y.contents = x.contents ++ x.room.take n.toNat ∧ y.room = x.room.drop n.toNat
  | .append src _ => y.contents = x.contents ++ src
  | .appendRaw len => ∃ added, added.length = len.toNat ∧ y.contents = x.contents ++ added
  | .shrink newSize => y.contents = x.contents.take newSize.toNat
  | .clear => y.contents = []
  | .write i v =>
      y.contents.length = x.contents.length ∧
        y.contents ++ y.room = (x.contents ++ x.room).set i v

def bytes (b : DynamicBuffer) : Bytes := ⟨b.contents, b.block.drop b.size⟩

def Call.Right (c : Call) (b : DynamicBuffer) : Outcome → Prop
  | .done b' => b'.size ≤ b'.cap ∧ c.Effect (bytes b) (bytes b')
  | .badAlloc => True
  | .overrun => False
  | .endless => False

def AllRight : List (Memory × Call) → DynamicBuffer → Prop
  | [], _ => True
  | (mem, c) :: calls, b =>
      c.Right b (c.run mem b) ∧
        match c.run mem b with
        | .done b' => AllRight calls b'
        | _ => True

/-- The sizes of a call add up to no more than half of what a word can count; a `commit` may go
up to its end. -/
def Call.Fits (b : DynamicBuffer) : Call → Prop
  | .reserve n => n.toNat ≤ 2 ^ 63
  | .reserveTail len => b.size + len.toNat ≤ 2 ^ 63
  | .commit n => b.size + n.toNat < 2 ^ 64
  | .append src _ => b.size + src.length ≤ 2 ^ 63
  | .appendRaw len => b.size + len.toNat ≤ 2 ^ 63
  | .shrink _ => True
  | .clear => True
  | .write _ _ => True

def AllFit : List (Memory × Call) → DynamicBuffer → Prop
  | [], _ => True
  | (mem, c) :: calls, b =>
      c.Fits b ∧
        match c.run mem b with
        | .done b' => AllFit calls b'
        | _ => True

/-! ### Growing -/

def PowerCap (cap : Nat) : Prop := cap = 0 ∨ ∃ k, k ≤ 63 ∧ cap = 2 ^ k

theorem PowerCap.le {cap : Nat} (h : PowerCap cap) : cap ≤ 2 ^ 63 := by
  rcases h with rfl | ⟨k, hk, rfl⟩
  · exact Nat.zero_le _
  · exact Nat.pow_le_pow_right (by decide) hk

theorem PowerCap.start {cap : Nat} (h : PowerCap cap) :
    ∃ k, k ≤ 63 ∧ (if cap = 0 then 4096 else cap) = 2 ^ k := by
  rcases h with rfl | ⟨k, hk, rfl⟩
  · exact ⟨12, by decide, rfl⟩
  · exact ⟨k, hk, if_neg (Nat.pos_iff_ne_zero.mp (Nat.two_pow_pos k))⟩

theorem double_pow {k : Nat} (hk : k < 63) : 2 ^ k * 2 % 2 ^ 64 = 2 ^ (k + 1) := by
  rw [← Nat.pow_succ]
  exact Nat.mod_eq_of_lt (Nat.pow_lt_pow_right (by decide) (by omega))

/-- The loop of `grow_` ends where the unbounded one does. -/
theorem growLoop_eq {need : Nat} (hneed : need ≤ 2 ^ 63) (fuel k rounds : Nat) (hk : k ≤ 63)
    (hfuel : 63 - k < fuel) (hrounds : need ≤ 2 ^ k * 2 ^ rounds) :
    growLoop need fuel (2 ^ k) = some (DynamicBuffer.doubled need rounds (2 ^ k)) ∧
      PowerCap (DynamicBuffer.doubled need rounds (2 ^ k)) := by
  induction fuel generalizing k rounds with
  | zero => exact absurd hfuel (Nat.not_lt_zero _)
  | succ fuel ih =>
      by_cases hlt : 2 ^ k < need
      · have hk' : k < 63 := by
          refine Nat.lt_of_le_of_ne hk fun heq => ?_
          rw [heq] at hlt
          omega
        cases rounds with
        | zero => omega
        | succ rounds =>
            have hmore : need ≤ 2 ^ (k + 1) * 2 ^ rounds := by
              calc need ≤ 2 ^ k * 2 ^ (rounds + 1) := hrounds
                _ = 2 ^ (k + 1) * 2 ^ rounds := by
                  rw [Nat.pow_succ' , Nat.pow_succ, Nat.mul_assoc]
            have hnext := ih (k + 1) rounds hk' (by omega) hmore
            rw [growLoop, if_pos hlt, double_pow hk', DynamicBuffer.doubled, if_pos hlt,
              ← Nat.pow_succ]
            exact hnext
      · have hstop : DynamicBuffer.doubled need rounds (2 ^ k) = 2 ^ k := by
          cases rounds with
          | zero => rfl
          | succ rounds => exact if_neg hlt
        rw [growLoop, if_neg hlt, hstop]
        exact ⟨rfl, .inr ⟨k, hk, rfl⟩⟩

theorem growLoop_zero {need : Nat} (hpos : 0 < need) (fuel : Nat) :
    growLoop need fuel 0 = none := by
  induction fuel with
  | zero => rfl
  | succ fuel ih =>
      rw [growLoop, if_pos hpos]
      exact ih

/-- Beyond `2 ^ 63` the loop never ends: the capacity runs out of its word. -/
theorem growLoop_endless {need : Nat} (hneed : 2 ^ 63 < need) (fuel k : Nat) (hk : k ≤ 63) :
    growLoop need fuel (2 ^ k) = none := by
  induction fuel generalizing k with
  | zero => rfl
  | succ fuel ih =>
      have hlt : 2 ^ k < need := by
        have hle : 2 ^ k ≤ 2 ^ 63 := Nat.pow_le_pow_right (by decide) hk
        omega
      rw [growLoop, if_pos hlt]
      rcases Nat.lt_or_eq_of_le hk with hk' | rfl
      · rw [double_pow hk']
        exact ih (k + 1) hk'
      · exact growLoop_zero (by omega) fuel

variable {mem : Memory} {b b' : DynamicBuffer} {need n : Nat}

theorem grownCap_spec (hb : PowerCap b.cap) (hneed : need ≤ 2 ^ 63) :
    growLoop need 65 (if b.cap = 0 then 4096 else b.cap) =
        some (DynamicBuffer.grownCap b.cap need) ∧
      PowerCap (DynamicBuffer.grownCap b.cap need) := by
  obtain ⟨k, hk, hstart⟩ := hb.start
  have hrounds : need ≤ 2 ^ k * 2 ^ need := by
    calc need ≤ 2 ^ need := Nat.le_of_lt Nat.lt_two_pow_self
      _ ≤ 2 ^ k * 2 ^ need := Nat.le_mul_of_pos_left _ (Nat.two_pow_pos k)
  unfold DynamicBuffer.grownCap
  rw [hstart]
  exact growLoop_eq hneed 65 k need hk (by omega) hrounds

theorem grow_eq (hb : PowerCap b.cap) (hneed : need ≤ 2 ^ 63) (hroom : b.cap < need) :
    grow mem b need = .badAlloc ∨ ∃ fresh, grow mem b need = .done (b.grow fresh need) := by
  unfold grow
  rw [(grownCap_spec hb hneed).1]
  dsimp only
  cases mem (DynamicBuffer.grownCap b.cap need) with
  | none => exact .inl rfl
  | some fresh =>
      refine .inr ⟨fresh, ?_⟩
      have hle := DynamicBuffer.le_grownCap b.cap need
      have hsize : b.size ≤ b.cap := b.size_le
      exact if_neg (by omega)

theorem grow_endless (hb : PowerCap b.cap) (hneed : 2 ^ 63 < need) :
    grow mem b need = .endless := by
  obtain ⟨k, hk, hstart⟩ := hb.start
  unfold grow
  rw [hstart, growLoop_endless hneed 65 k hk]

theorem powerCap_grow (fresh : Nat → Byte) (hb : PowerCap b.cap) (hneed : need ≤ 2 ^ 63)
    (hroom : b.cap < need) : PowerCap (b.grow fresh need).cap := by
  have hcap : (b.grow fresh need).cap = DynamicBuffer.grownCap b.cap need := by
    have hle := DynamicBuffer.le_grownCap b.cap need
    have hsize : b.size ≤ b.cap := b.size_le
    rw [DynamicBuffer.cap, DynamicBuffer.grow, List.length_append, DynamicBuffer.length_contents,
      List.length_map, List.length_range']
    omega
  rw [hcap]
  exact (grownCap_spec hb hneed).2

/-! ### The calls as those of the unbounded model -/

theorem reserve_eq (hb : PowerCap b.cap) (hn : n ≤ 2 ^ 63) :
    reserve mem b n = .badAlloc ∨ ∃ b', reserve mem b n = .done b' ∧ PowerCap b'.cap ∧
      b'.contents = b.contents ∧ n ≤ b'.cap := by
  unfold reserve
  split
  · rename_i hroom
    refine (grow_eq hb hn hroom).imp_right fun ⟨fresh, hgrow⟩ => ?_
    refine ⟨b.grow fresh n, hgrow, powerCap_grow fresh hb hn hroom, ?_, ?_⟩
    · exact List.take_left' b.length_contents
    · have hle := DynamicBuffer.le_grownCap b.cap n
      have hsize : b.size ≤ b.cap := b.size_le
      rw [DynamicBuffer.cap, DynamicBuffer.grow, List.length_append,
        DynamicBuffer.length_contents, List.length_map, List.length_range']
      omega
  · rename_i hroom
    exact .inr ⟨b, rfl, hb, rfl, Nat.le_of_not_lt hroom⟩

theorem reserveTail_eq (mem : Memory) (hb : PowerCap b.cap) (hn : b.size + n ≤ 2 ^ 63) :
    reserveTail mem b n = .badAlloc ∨ ∃ fresh, reserveTail mem b n = .done (b.reserveTail fresh n) ∧
      PowerCap (b.reserveTail fresh n).cap := by
  have hneed : (b.size + n) % 2 ^ 64 = b.size + n := Nat.mod_eq_of_lt (by omega)
  unfold reserveTail DynamicBuffer.reserveTail
  rw [hneed]
  by_cases hroom : b.cap < b.size + n
  · simp only [if_pos hroom]
    exact (grow_eq hb hn hroom).imp_right fun ⟨fresh, hgrow⟩ =>
      ⟨fresh, hgrow, powerCap_grow fresh hb hn hroom⟩
  · simp only [if_neg hroom]
    exact .inr ⟨fun _ => 0, trivial, hb⟩

theorem commit_eq (hn : b.size + n < 2 ^ 64) : commit b n = b.commit n := by
  have hsize : (if b.cap < (b.size + n) % 2 ^ 64 then b.cap else (b.size + n) % 2 ^ 64) =
      min (b.size + n) b.cap := by
    rw [Nat.mod_eq_of_lt hn]
    split <;> omega
  unfold commit DynamicBuffer.commit
  simp only [hsize]

theorem contents_commit (b : DynamicBuffer) (n : Nat) :
    (b.commit n).contents = b.contents ++ (b.block.drop b.size).take n := by
  change b.block.take (min (b.size + n) b.block.length) = _
  rw [← List.take_eq_take_min, List.take_add]
  rfl

theorem room_commit (b : DynamicBuffer) (n : Nat) :
    (b.commit n).block.drop (b.commit n).size = (b.block.drop b.size).drop n := by
  change b.block.drop (min (b.size + n) b.block.length) = _
  rw [List.drop_drop]
  by_cases hle : b.size + n ≤ b.block.length
  · rw [Nat.min_eq_left hle]
  · rw [Nat.min_eq_right (Nat.le_of_not_le hle), List.drop_length,
      List.drop_of_length_le (Nat.le_of_not_le hle)]

/-- The room of an appending call is that of its `reserveTail`. -/
theorem cap_append (b : DynamicBuffer) (fresh : Nat → Byte) (src : List Byte) :
    (b.append fresh src).cap = (b.reserveTail fresh src.length).cap := by
  have hroom := b.room_reserveTail fresh src.length
  have hsize := b.size_reserveTail fresh src.length
  unfold DynamicBuffer.append DynamicBuffer.commit DynamicBuffer.store DynamicBuffer.cap
  unfold DynamicBuffer.cap at hroom
  rw [List.length_append, List.length_append, DynamicBuffer.length_contents, List.length_drop]
  omega

theorem append_eq (hb : PowerCap b.cap) {src : List Byte} (hn : b.size + src.length ≤ 2 ^ 63) :
    append mem b src = .badAlloc ∨ ∃ fresh, append mem b src = .done (b.append fresh src) ∧
      PowerCap (b.append fresh src).cap := by
  unfold append
  rcases reserveTail_eq mem hb hn with heq | ⟨fresh, heq, hcap⟩
  · rw [heq]
    exact .inl rfl
  · rw [heq]
    refine .inr ⟨fresh, ?_, ?_⟩
    · have hroom := b.room_reserveTail fresh src.length
      have hsize := b.size_reserveTail fresh src.length
      have hfits : ¬ (b.reserveTail fresh src.length).cap <
          (b.reserveTail fresh src.length).size + src.length := by omega
      refine (if_neg hfits).trans (congrArg Outcome.done (commit_eq ?_))
      change (b.reserveTail fresh src.length).size + src.length < 2 ^ 64
      omega
    · rw [cap_append]
      exact hcap

/-! ### What a call does -/

theorem length_room (b : DynamicBuffer) : (bytes b).room.length = b.cap - b.size :=
  List.length_drop

theorem length_bytes (b : DynamicBuffer) :
    (bytes b).contents.length + (bytes b).room.length = b.cap := by
  have hsize : b.size ≤ b.cap := b.size_le
  rw [length_room]
  change b.contents.length + _ = _
  rw [DynamicBuffer.length_contents]
  omega

theorem run_fits (mem : Memory) (hb : PowerCap b.cap) {c : Call} (hfits : c.Fits b) :
    c.run mem b = .badAlloc ∨
      ∃ b', c.run mem b = .done b' ∧ PowerCap b'.cap ∧ c.Effect (bytes b) (bytes b') := by
  cases c with
  | reserve n =>
      refine (reserve_eq hb hfits).imp_right fun ⟨b', hrun, hcap, hcontents, hle⟩ => ?_
      exact ⟨b', hrun, hcap, hcontents, by rw [length_bytes]; exact hle⟩
  | reserveTail len =>
      refine (reserveTail_eq mem hb hfits).imp_right fun ⟨fresh, hrun, hcap⟩ => ?_
      refine ⟨_, hrun, hcap, b.contents_reserveTail fresh _, ?_⟩
      have hroom := b.room_reserveTail fresh len.toNat
      have hsize := b.size_reserveTail fresh len.toNat
      rw [length_room]
      omega
  | commit n =>
      refine .inr ⟨_, congrArg Outcome.done (commit_eq hfits), hb, ?_, ?_⟩
      · exact contents_commit b n.toNat
      · exact room_commit b n.toNat
  | append src _ =>
      refine (append_eq hb hfits).imp_right fun ⟨fresh, hrun, hcap⟩ => ?_
      exact ⟨_, hrun, hcap, b.contents_append fresh src⟩
  | appendRaw len =>
      change appendRaw mem b len.toNat = _ ∨ ∃ b', appendRaw mem b len.toNat = _ ∧ _
      unfold appendRaw
      rcases reserveTail_eq mem hb hfits with heq | ⟨fresh, heq, hcap⟩
      · rw [heq]
        exact .inl rfl
      · have hroom := b.room_reserveTail fresh len.toNat
        have hsize := b.size_reserveTail fresh len.toNat
        have hfits' : (b.reserveTail fresh len.toNat).size + len.toNat < 2 ^ 64 := by
          have hle : b.size + len.toNat ≤ 2 ^ 63 := hfits
          omega
        rw [heq]
        refine .inr ⟨_, congrArg Outcome.done (commit_eq hfits'), hcap, ?_⟩
        refine ⟨((b.reserveTail fresh len.toNat).block.drop
          (b.reserveTail fresh len.toNat).size).take len.toNat, ?_, ?_⟩
        · rw [List.length_take, List.length_drop]
          unfold DynamicBuffer.cap at hroom
          omega
        · change ((b.reserveTail fresh len.toNat).commit len.toNat).contents = b.contents ++ _
          rw [contents_commit, DynamicBuffer.contents_reserveTail]
  | shrink newSize =>
      refine .inr ⟨_, rfl, hb, ?_⟩
      change b.block.take (if newSize.toNat < b.size then newSize.toNat else b.size) =
        (b.block.take b.size).take newSize.toNat
      rw [List.take_take]
      congr 1
      split <;> omega
  | clear => exact .inr ⟨_, rfl, hb, (List.take_zero : b.block.take 0 = [])⟩
  | write i v =>
      refine .inr ⟨_, rfl, ?_, ?_, ?_⟩
      · change PowerCap (b.block.set i v).length
        rw [List.length_set]
        exact hb
      · exact ((write b i v).length_contents).trans b.length_contents.symm
      · change (b.block.set i v).take b.size ++ (b.block.set i v).drop b.size =
          (b.block.take b.size ++ b.block.drop b.size).set i v
        rw [List.take_append_drop, List.take_append_drop]

/-- A tail that does not fit is not reserved: the loop does not end, or the size wraps and
nothing happens. -/
theorem reserveTail_wrong (mem : Memory) (hb : PowerCap b.cap) (hn : n < 2 ^ 64)
    (hover : 2 ^ 63 < b.size + n) :
    reserveTail mem b n = .endless ∨
      reserveTail mem b n = .done b ∧ 2 ^ 64 ≤ b.size + n := by
  have hsize : b.size ≤ b.cap := b.size_le
  have hcap := hb.le
  unfold reserveTail
  dsimp only
  by_cases hword : b.size + n < 2 ^ 64
  · rw [Nat.mod_eq_of_lt hword, if_pos (by omega)]
    exact .inl (grow_endless hb hover)
  · have hneed : (b.size + n) % 2 ^ 64 = b.size + n - 2 ^ 64 := by omega
    rw [hneed, if_neg (by omega)]
    exact .inr ⟨rfl, Nat.le_of_not_lt hword⟩

theorem contents_ne_of_lt {l : List Byte} (h : b.size < l.length) : b.contents ≠ l := by
  intro heq
  rw [← heq, DynamicBuffer.length_contents] at h
  exact Nat.lt_irrefl _ h

theorem size_commit_wrap (hn : n < 2 ^ 64) (hover : 2 ^ 64 ≤ b.size + n)
    (hcap : b.cap ≤ 2 ^ 63) : (commit b n).size < b.size := by
  have hsize : b.size ≤ b.cap := b.size_le
  change (if b.cap < (b.size + n) % 2 ^ 64 then b.cap else (b.size + n) % 2 ^ 64) < b.size
  split <;> omega

theorem run_over (hb : PowerCap b.cap) {c : Call} (hover : ¬ c.Fits b) :
    ¬ c.Right b (c.run mem b) := by
  have hsize : b.size ≤ b.cap := b.size_le
  have hcap := hb.le
  cases c with
  | reserve n =>
      have hn : 2 ^ 63 < n.toNat := Nat.lt_of_not_le hover
      change ¬ Call.Right _ b (reserve mem b n.toNat)
      unfold reserve
      rw [if_pos (by omega), grow_endless hb hn]
      exact not_false
  | reserveTail len =>
      change ¬ Call.Right _ b (reserveTail mem b len.toNat)
      rcases reserveTail_wrong mem hb len.isLt (Nat.lt_of_not_le hover) with
        heq | ⟨heq, hwrap⟩
      · rw [heq]
        exact not_false
      · rw [heq]
        intro ⟨_, _, hroom⟩
        rw [length_room] at hroom
        omega
  | commit n =>
      have hwrap : 2 ^ 64 ≤ b.size + n.toNat := Nat.le_of_not_lt hover
      have hlt := size_commit_wrap n.isLt hwrap hcap
      intro ⟨_, hcontents, _⟩
      refine contents_ne_of_lt ?_ hcontents
      change _ < (b.contents ++ _).length
      rw [List.length_append, DynamicBuffer.length_contents]
      omega
  | append src word =>
      change ¬ Call.Right _ b (append mem b src)
      unfold append
      rcases reserveTail_wrong mem hb word (Nat.lt_of_not_le hover) with
        heq | ⟨heq, hwrap⟩
      · rw [heq]
        exact not_false
      · rw [heq]
        have hoverrun : b.cap < b.size + src.length := by omega
        change ¬ Call.Right _ b (if b.cap < b.size + src.length then _ else _)
        rw [if_pos hoverrun]
        exact not_false
  | appendRaw len =>
      change ¬ Call.Right _ b (appendRaw mem b len.toNat)
      unfold appendRaw
      rcases reserveTail_wrong mem hb len.isLt (Nat.lt_of_not_le hover) with
        heq | ⟨heq, hwrap⟩
      · rw [heq]
        exact not_false
      · have hlt := size_commit_wrap len.isLt hwrap hcap
        rw [heq]
        intro ⟨_, added, _, hcontents⟩
        refine contents_ne_of_lt ?_ hcontents
        change _ < (b.contents ++ _).length
        rw [List.length_append, DynamicBuffer.length_contents]
        omega
  | shrink newSize => exact absurd trivial hover
  | clear => exact absurd trivial hover
  | write i v => exact absurd trivial hover

theorem right_iff_fits (hb : PowerCap b.cap) (c : Call) : c.Right b (c.run mem b) ↔ c.Fits b := by
  constructor
  · intro hright
    by_contra hover
    exact run_over hb hover hright
  · intro hfits
    rcases run_fits mem hb hfits with heq | ⟨b', heq, -, heffect⟩
    · rw [heq]
      trivial
    · rw [heq]
      exact ⟨b'.size_le, heffect⟩

/-! ### Sequences of calls -/

theorem all_right_iff_fit (hb : PowerCap b.cap) (calls : List (Memory × Call)) :
    AllRight calls b ↔ AllFit calls b := by
  induction calls generalizing b with
  | nil => exact Iff.rfl
  | cons call calls ih =>
      obtain ⟨mem, c⟩ := call
      unfold AllRight AllFit
      rw [right_iff_fits hb]
      refine and_congr_right fun hfits => ?_
      rcases run_fits mem hb hfits with heq | ⟨b', heq, hcap, -⟩
      · rw [heq]
      · rw [heq]
        exact ih hcap

/-- In every sequence of calls on a new buffer, all calls are right exactly when the sizes of
every call that is reached fit. -/
theorem calls_right_iff (calls : List (Memory × Call)) :
    AllRight calls .empty ↔ AllFit calls .empty :=
  all_right_iff_fit (.inl rfl) calls

/-- `reserve` of more than half of what a word can count never ends. -/
theorem reserve_endless :
    Call.run (fun _ => none) .empty (.reserve 0x8000000000000001#64) = .endless ∧
      ¬ AllRight [(fun _ => none, .reserve 0x8000000000000001#64)] .empty := by
  have hrun : Call.run (fun _ => none) .empty (.reserve 0x8000000000000001#64) = .endless := rfl
  refine ⟨hrun, fun hright => ?_⟩
  have hright' := hright.1
  rw [hrun] at hright'
  exact hright'

end Uvent.Net.BufferCalls
