import Uvent.Queue.FastQueue

/-!
# `single_thread::Queue` is a list

While the block has the cells of its capacity, a power of two, positions count
modulo `2^64` without harm: the capacity divides `2^64`.  Every operation, with or
without growth, with or without `memcpy`, then does to the elements from `head`
to `tail` what the list operation does.
-/

namespace Uvent.SingleThread

open Uvent.Lib.RingBuffer Uvent.Lib.Lap

variable {α : Type} {T : ElementType} {grants : SizeT → Bool} {q : Queue α} {k d : Nat}
  {xs : List α}

/-! ## The rounded capacity and the block -/

/-- The two `next_pow2` of the repository test their argument differently. -/
theorem nextPow2_eq (c : SizeT) : nextPow2 c = Queue.MpmcQueue.nextPow2 c := by
  by_cases h0 : c = 0
  · rw [h0]
    rfl
  by_cases h1 : c = 1
  · rw [h1]
    decide
  have hgt : ¬c ≤ 1 := by
    have hne0 : c.toNat ≠ 0 := fun h => h0 (BitVec.eq_of_toNat_eq h)
    have hne1 : c.toNat ≠ 1 := fun h => h1 (BitVec.eq_of_toNat_eq h)
    rw [BitVec.le_def]
    change ¬c.toNat ≤ 1
    omega
  rw [nextPow2, if_neg h0, Queue.MpmcQueue.nextPow2, if_neg hgt]

theorem allocItems_eq_some {n : SizeT} {room : Nat} (h : allocItems T grants n = some room)
    (hbytes : T.sizeof.toNat * n.toNat < 2 ^ 64) :
    room = n.toNat ∧ T.sizeof.toNat * n.toNat < 2 ^ 63 := by
  simp only [allocItems, BitVec.toNat_mul, Nat.mod_eq_of_lt hbytes] at h
  split at h
  case isTrue hgranted =>
    rw [Nat.mul_div_cancel_left _ T.sizeof_pos] at h
    exact ⟨(Option.some.inj h).symm, hgranted.1⟩
  case isFalse => exact absurd h (by simp)

/-- The block has the `2^k` cells of the capacity. -/
structure Sized (T : ElementType) (q : Queue α) (k : Nat) : Prop where
  capacity_eq : q.capacity = BitVec.ofNat 64 (2 ^ k)
  mask_eq : q.mask = BitVec.ofNat 64 (2 ^ k - 1)
  bytes : T.sizeof.toNat * 2 ^ k < 2 ^ 63
  room_le : 2 ^ k ≤ q.room

/-- A queue of `2^k` cells that holds `xs`, the head at ticket `d`. -/
structure Represents (T : ElementType) (q : Queue α) (k d : Nat) (xs : List α) : Prop where
  sized : Sized T q k
  head_eq : q.head = BitVec.ofNat 64 d
  tail_eq : q.tail = BitVec.ofNat 64 (d + xs.length)
  length_le : xs.length ≤ 2 ^ k
  holds : Holds (2 ^ k) q.buffer d xs

namespace Sized

theorem cap_lt (h : Sized T q k) : 2 ^ k < 2 ^ 63 := by
  have hle : 2 ^ k ≤ T.sizeof.toNat * 2 ^ k := Nat.le_mul_of_pos_left _ T.sizeof_pos
  have hbytes := h.bytes
  omega

theorem k_lt (h : Sized T q k) : k < 63 := (Nat.pow_lt_pow_iff_right (by decide)).mp h.cap_lt

theorem cap_pos : 0 < 2 ^ k := Nat.two_pow_pos k

theorem toNat_capacity (h : Sized T q k) : q.capacity.toNat = 2 ^ k := by
  have hlt := h.cap_lt
  rw [h.capacity_eq, BitVec.toNat_ofNat, Nat.mod_eq_of_lt (by omega)]

theorem index_ofNat (h : Sized T q k) (p : Nat) : q.index (BitVec.ofNat 64 p) = p % 2 ^ k := by
  have hlt := h.cap_lt
  have hdvd : 2 ^ k ∣ 2 ^ 64 := Nat.pow_dvd_pow 2 (by have := h.k_lt; omega)
  rw [Queue.index, h.mask_eq, BitVec.toNat_and, BitVec.toNat_ofNat, BitVec.toNat_ofNat,
    Nat.mod_eq_of_lt (show 2 ^ k - 1 < 2 ^ 64 by omega), Nat.and_two_pow_sub_one_eq_mod,
    Nat.mod_mod_of_dvd _ hdvd]

theorem index_lt_room (h : Sized T q k) (p : Nat) : q.index (BitVec.ofNat 64 p) < q.room := by
  rw [h.index_ofNat]
  exact lt_of_lt_of_le (Nat.mod_lt _ cap_pos) h.room_le

theorem construct_eq (h : Sized T q k) (p : Nat) (item : α) :
    q.construct (q.index (BitVec.ofNat 64 p)) item =
      some { q with buffer := Function.update q.buffer (p % 2 ^ k) (some item) } := by
  rw [Queue.construct, if_pos (h.index_lt_room p), h.index_ofNat]

theorem constructAll_eq (h : Sized T q k) (p i : Nat) (items : List α) :
    Queue.constructAll (BitVec.ofNat 64 p) i items q =
      some { q with buffer := fill (2 ^ k) q.buffer (p + i) items } := by
  induction items generalizing q i with
  | nil => rfl
  | cons item items ih =>
      rw [Queue.constructAll, ← BitVec.ofNat_add, h.construct_eq, Option.bind_some]
      have hsized : Sized T
          { q with buffer := Function.update q.buffer ((p + i) % 2 ^ k) (some item) } k :=
        ⟨h.capacity_eq, h.mask_eq, h.bytes, h.room_le⟩
      rw [ih hsized, fill, Nat.add_assoc]

/-- The masked positions where a `memcpy` starts and ends, and its first segment. -/
theorem segments (h : Sized T q k) (p n : Nat) :
    (BitVec.ofNat 64 p &&& q.mask).toNat = p % 2 ^ k ∧
      ((BitVec.ofNat 64 p + BitVec.ofNat 64 n) &&& q.mask).toNat = (p + n) % 2 ^ k ∧
      (q.capacity - (BitVec.ofNat 64 p &&& q.mask)).toNat = 2 ^ k - p % 2 ^ k := by
  have hs : (BitVec.ofNat 64 p &&& q.mask).toNat = p % 2 ^ k := h.index_ofNat p
  refine ⟨hs, ?_, ?_⟩
  · rw [← BitVec.ofNat_add]
    exact h.index_ofNat (p + n)
  · have hlt := Nat.mod_lt p (cap_pos (k := k))
    rw [BitVec.toNat_sub_of_le, hs, h.toNat_capacity]
    rw [BitVec.le_def, hs, h.toNat_capacity]
    omega

/-- The `memcpy` branch stores what the loop would. -/
theorem copyAll_eq (h : Sized T q k) {p : Nat} (htail : q.tail = BitVec.ofNat 64 p)
    {src : List α} (hpos : 0 < src.length) (hlap : src.length ≤ 2 ^ k) :
    q.copyAll src (BitVec.ofNat 64 src.length) =
      some { q with buffer := fill (2 ^ k) q.buffer p src } := by
  have hcap := h.cap_lt
  have hroom := h.room_le
  have hlt := Nat.mod_lt p (cap_pos (k := k))
  have hcount : (BitVec.ofNat 64 src.length).toNat = src.length := by
    rw [BitVec.toNat_ofNat, Nat.mod_eq_of_lt (by omega)]
  obtain ⟨hs, he, hfirst⟩ := h.segments p src.length
  simp only [Queue.copyAll, htail]
  have hiff : (BitVec.ofNat 64 p &&& q.mask) <
      ((BitVec.ofNat 64 p + BitVec.ofNat 64 src.length) &&& q.mask) ↔
        p % 2 ^ k + src.length < 2 ^ k := by
    rw [BitVec.lt_def, hs, he]
    exact mod_lt_mod_add_iff hpos hlap
  by_cases hone : p % 2 ^ k + src.length < 2 ^ k
  · rw [if_pos (hiff.mpr hone), hs, hcount, Queue.memcpyIn, if_pos ⟨by omega, Nat.le_refl _⟩,
      List.take_length, fill_eq_splice _ (Nat.le_of_lt hone), htail]
  · have hrest : (BitVec.ofNat 64 src.length -
        (q.capacity - (BitVec.ofNat 64 p &&& q.mask))).toNat =
          src.length - (2 ^ k - p % 2 ^ k) := by
      rw [BitVec.toNat_sub_of_le, hfirst, hcount]
      rw [BitVec.le_def, hfirst, hcount]
      omega
    have hdrop : (src.drop (2 ^ k - p % 2 ^ k)).length = src.length - (2 ^ k - p % 2 ^ k) :=
      List.length_drop
    rw [if_neg (fun hlt => hone (hiff.mp hlt)), hs, hrest, hfirst, Queue.memcpyIn,
      if_pos ⟨by omega, by omega⟩, Option.bind_some, Queue.memcpyIn]
    rw [if_pos ⟨by change 0 + _ ≤ q.room; omega, by omega⟩, ← hdrop, List.take_length,
      fill_eq_splice_splice _ cap_pos (by omega) hlap, htail]

end Sized

/-! ## The list in the ring -/

namespace Represents

theorem length_lt (h : Represents T q k d xs) : xs.length < 2 ^ 63 :=
  lt_of_le_of_lt h.length_le h.sized.cap_lt

theorem size_eq (h : Represents T q k d xs) : q.size = BitVec.ofNat 64 xs.length := by
  rw [Queue.size, h.head_eq, h.tail_eq, BitVec.ofNat_add]
  rw [BitVec.add_comm]
  exact BitVec.add_sub_cancel _ _

theorem toNat_size (h : Represents T q k d xs) : q.size.toNat = xs.length := by
  have hlt := h.length_lt
  rw [h.size_eq, BitVec.toNat_ofNat, Nat.mod_eq_of_lt (by omega)]

theorem head_eq_tail_iff (h : Represents T q k d xs) : q.head = q.tail ↔ xs = [] := by
  constructor
  · intro heq
    have hsize := h.toNat_size
    rw [Queue.size, heq, BitVec.sub_self] at hsize
    exact List.eq_nil_of_length_eq_zero hsize.symm
  · intro hnil
    rw [h.head_eq, h.tail_eq, hnil]
    rfl

theorem load_eq (h : Represents T q k d xs) {i : Nat} (hi : i < xs.length) :
    q.load ((d + i) % 2 ^ k) = some xs[i] := by
  have hlt : (d + i) % 2 ^ k < q.room :=
    lt_of_lt_of_le (Nat.mod_lt _ Sized.cap_pos) h.sized.room_le
  rw [Queue.load, if_pos hlt]
  exact h.holds i hi

theorem moveOut_eq (h : Represents T q k d xs) {n : Nat} (hn : n ≤ xs.length) :
    q.moveOut q.head n = some (xs.take n) := by
  have hlen : (xs.take n).length = n := by
    rw [List.length_take]
    omega
  have hread : (List.range (xs.take n).length).mapM
      (fun i => q.load (q.index (q.head + BitVec.ofNat 64 i))) = some (xs.take n) := by
    apply mapM_range_eq_some
    intro i hi
    rw [h.head_eq, ← BitVec.ofNat_add, h.sized.index_ofNat, h.load_eq (by omega),
      List.getElem_take]
  rw [hlen] at hread
  exact hread

theorem memcpyOut_eq (h : Represents T q k d xs) {a j n : Nat} (hn : j + n ≤ xs.length)
    (hseg : ∀ i, i < n → (d + (j + i)) % 2 ^ k = a + i) :
    q.memcpyOut a n = some ((xs.drop j).take n) := by
  have hlen : ((xs.drop j).take n).length = n := by
    rw [List.length_take, List.length_drop]
    omega
  have hread : (List.range ((xs.drop j).take n).length).mapM (fun i => q.load (a + i)) =
      some ((xs.drop j).take n) := by
    apply mapM_range_eq_some
    intro i hi
    rw [← hseg i (by omega), h.load_eq (by omega), List.getElem_take, List.getElem_drop]
  rw [hlen] at hread
  exact hread

theorem copyOut_eq (h : Represents T q k d xs) {n : Nat} (hpos : 0 < n) (hn : n ≤ xs.length) :
    q.copyOut (BitVec.ofNat 64 n) = some (xs.take n) := by
  have hlen := h.length_le
  have hcap := h.sized.cap_lt
  have hlt := Nat.mod_lt d (Sized.cap_pos (k := k))
  have hcount : (BitVec.ofNat 64 n).toNat = n := by
    rw [BitVec.toNat_ofNat, Nat.mod_eq_of_lt (by omega)]
  obtain ⟨hs, he, hfirst⟩ := h.sized.segments d n
  simp only [Queue.copyOut, h.head_eq]
  have hiff : (BitVec.ofNat 64 d &&& q.mask) <
      ((BitVec.ofNat 64 d + BitVec.ofNat 64 n) &&& q.mask) ↔ d % 2 ^ k + n < 2 ^ k := by
    rw [BitVec.lt_def, hs, he]
    exact mod_lt_mod_add_iff hpos (by omega)
  have hflat : ∀ i, d % 2 ^ k + i < 2 ^ k → (d + (0 + i)) % 2 ^ k = d % 2 ^ k + i := by
    intro i hi
    rw [Nat.zero_add, ← Nat.mod_add_mod, Nat.mod_eq_of_lt hi]
  by_cases hone : d % 2 ^ k + n < 2 ^ k
  · rw [if_pos (hiff.mpr hone), hs, hcount]
    exact h.memcpyOut_eq (j := 0) (by omega) (fun i hi => hflat i (by omega))
  · have hrest : (BitVec.ofNat 64 n -
        (q.capacity - (BitVec.ofNat 64 d &&& q.mask))).toNat = n - (2 ^ k - d % 2 ^ k) := by
      rw [BitVec.toNat_sub_of_le, hfirst, hcount]
      rw [BitVec.le_def, hfirst, hcount]
      omega
    -- the rest starts over at the first cell
    have hround : ∀ i, i < n - (2 ^ k - d % 2 ^ k) →
        (d + (2 ^ k - d % 2 ^ k + i)) % 2 ^ k = 0 + i := by
      intro i hi
      rw [← Nat.add_assoc, ← Nat.mod_add_mod, add_sub_mod_mod Sized.cap_pos]
      exact Nat.mod_eq_of_lt (by omega)
    have htwo : 2 ^ k - d % 2 ^ k + (n - (2 ^ k - d % 2 ^ k)) = n := by omega
    rw [if_neg (fun hlt => hone (hiff.mp hlt)), hs, hrest, hfirst,
      h.memcpyOut_eq (j := 0) (by omega) (fun i hi => hflat i (by omega)), Option.bind_some,
      h.memcpyOut_eq (j := 2 ^ k - d % 2 ^ k) (by omega) hround, Option.map_some,
      List.drop_zero, ← List.take_add, htwo]

/-! ### Growth -/

theorem toNat_double (h : Represents T q k d xs) :
    (q.capacity * 2).toNat = 2 ^ (k + 1) ∧ T.sizeof.toNat * (q.capacity * 2).toNat < 2 ^ 64 := by
  have hlt := h.sized.cap_lt
  have hbytes := h.sized.bytes
  have hdouble : (q.capacity * 2).toNat = 2 ^ (k + 1) := by
    rw [BitVec.toNat_mul, h.sized.toNat_capacity]
    change 2 ^ k * 2 % 2 ^ 64 = _
    rw [Nat.mod_eq_of_lt (by omega), Nat.pow_succ]
  refine ⟨hdouble, ?_⟩
  rw [hdouble, Nat.pow_succ, ← Nat.mul_assoc]
  omega

theorem grow_spec (h : Represents T q k d xs) (grants : SizeT → Bool) :
    (q.grow T grants = .badAlloc q ∧ allocItems T grants (q.capacity * 2) = none) ∨
      ∃ q', q.grow T grants = .returned () q' ∧ Represents T q' (k + 1) 0 xs := by
  have hlen := h.length_le
  obtain ⟨hdouble, hfit⟩ := h.toNat_double
  rw [Queue.grow]
  cases halloc : allocItems T grants (q.capacity * 2) with
  | none => exact Or.inl ⟨rfl, rfl⟩
  | some room =>
      right
      obtain ⟨hroom, hbytes⟩ := allocItems_eq_some halloc hfit
      rw [hdouble] at hroom hbytes
      have hle : xs.length ≤ room := by
        rw [hroom, Nat.pow_succ]
        omega
      simp only [h.toNat_size, h.moveOut_eq (Nat.le_refl _), List.take_length, if_pos hle]
      refine ⟨_, rfl, ?_⟩
      have hcap : q.capacity * 2 = BitVec.ofNat 64 (2 ^ (k + 1)) := by
        apply BitVec.eq_of_toNat_eq
        rw [hdouble, BitVec.toNat_ofNat, Nat.mod_eq_of_lt]
        have hpos := T.sizeof_pos
        have hge : 2 ^ (k + 1) ≤ T.sizeof.toNat * 2 ^ (k + 1) := Nat.le_mul_of_pos_left _ hpos
        omega
      exact {
        sized := {
          capacity_eq := hcap
          mask_eq := by
            apply BitVec.eq_of_toNat_eq
            have hone : 1 ≤ 2 ^ (k + 1) := Nat.one_le_two_pow
            have hge : 2 ^ (k + 1) ≤ T.sizeof.toNat * 2 ^ (k + 1) :=
              Nat.le_mul_of_pos_left _ T.sizeof_pos
            rw [BitVec.toNat_sub_of_le, hdouble, BitVec.toNat_ofNat, Nat.mod_eq_of_lt (by omega)]
            · rfl
            · rw [BitVec.le_def, hdouble]
              exact hone
          bytes := hbytes
          room_le := Nat.le_of_eq hroom.symm }
        head_eq := rfl
        tail_eq := by
          rw [Nat.zero_add]
          exact h.size_eq
        length_le := by
          rw [Nat.pow_succ]
          omega
        holds := by
          intro i hi
          rw [Nat.zero_add, Nat.mod_eq_of_lt (by rw [Nat.pow_succ]; omega)]
          exact List.getElem?_eq_getElem hi }

/-- The growth loop ends: with room for `need` elements, or because a request for
less than twice as many was refused. -/
theorem growWhile_spec (grants : SizeT → Bool) (need : SizeT) (fuel : Nat) {q : Queue α}
    {k d : Nat} (h : Represents T q k d xs) (hfuel : 2 ^ 63 ≤ 2 ^ k * 2 ^ fuel) :
    (∃ q' k' d', Queue.growWhile T grants need fuel q = .badAlloc q' ∧
        Represents T q' k' d' xs ∧
        ∃ n : SizeT, n.toNat < 2 * need.toNat ∧ allocItems T grants n = none) ∨
      ∃ q' k' d', Queue.growWhile T grants need fuel q = .returned () q' ∧
        Represents T q' k' d' xs ∧ need.toNat ≤ 2 ^ k' := by
  induction fuel generalizing q k d with
  | zero =>
      have hlt := h.sized.cap_lt
      rw [Nat.pow_zero, Nat.mul_one] at hfuel
      omega
  | succ fuel ih =>
      rw [Queue.growWhile]
      have hcap := h.sized.toNat_capacity
      by_cases hroom : need ≤ q.capacity
      · right
        refine ⟨q, k, d, if_pos hroom, h, ?_⟩
        rw [BitVec.le_def, hcap] at hroom
        exact hroom
      · rw [if_neg hroom]
        rw [BitVec.le_def, hcap] at hroom
        rcases h.grow_spec grants with ⟨hthrow, hrefused⟩ | ⟨q', hgrow, hq'⟩
        · left
          rw [hthrow]
          refine ⟨q, k, d, rfl, h, q.capacity * 2, ?_, hrefused⟩
          rw [h.toNat_double.1, Nat.pow_succ]
          omega
        · rw [hgrow]
          apply ih hq'
          calc 2 ^ 63 ≤ 2 ^ k * 2 ^ (fuel + 1) := hfuel
            _ = 2 ^ (k + 1) * 2 ^ fuel := by
              rw [← Nat.pow_add, ← Nat.pow_add]
              congr 1
              omega

/-! ### The operations -/

theorem push (h : Represents T q k d xs) (hroom : xs.length < 2 ^ k) (item : α) :
    Represents T
      { q with
        buffer := Function.update q.buffer ((d + xs.length) % 2 ^ k) (some item)
        tail := q.tail + 1 } k d (xs ++ [item]) where
  sized := ⟨h.sized.capacity_eq, h.sized.mask_eq, h.sized.bytes, h.sized.room_le⟩
  head_eq := h.head_eq
  tail_eq := by
    change q.tail + 1 = _
    rw [h.tail_eq, List.length_append, List.length_singleton, ← Nat.add_assoc]
    exact (BitVec.ofNat_add _ 1).symm
  length_le := by
    rw [List.length_append, List.length_singleton]
    exact hroom
  holds := h.holds.push hroom item

theorem append (h : Represents T q k d xs) {src : List α}
    (hroom : xs.length + src.length ≤ 2 ^ k) :
    Represents T
      { q with
        buffer := fill (2 ^ k) q.buffer (d + xs.length) src
        tail := q.tail + BitVec.ofNat 64 src.length } k d (xs ++ src) where
  sized := ⟨h.sized.capacity_eq, h.sized.mask_eq, h.sized.bytes, h.sized.room_le⟩
  head_eq := h.head_eq
  tail_eq := by
    change q.tail + BitVec.ofNat 64 src.length = _
    rw [h.tail_eq, List.length_append, ← Nat.add_assoc]
    exact (BitVec.ofNat_add _ _).symm
  length_le := by
    rw [List.length_append]
    exact hroom
  holds := h.holds.fill hroom

theorem advance (h : Represents T q k d xs) {n : Nat} (hn : n ≤ xs.length)
    {buffer : Nat → Option α} (hholds : Holds (2 ^ k) buffer (d + n) (xs.drop n)) :
    Represents T { q with buffer, head := q.head + BitVec.ofNat 64 n } k (d + n)
      (xs.drop n) where
  sized := ⟨h.sized.capacity_eq, h.sized.mask_eq, h.sized.bytes, h.sized.room_le⟩
  head_eq := by
    change q.head + BitVec.ofNat 64 n = _
    rw [h.head_eq]
    exact (BitVec.ofNat_add _ _).symm
  tail_eq := by
    rw [List.length_drop]
    change q.tail = _
    rw [h.tail_eq]
    congr 1
    omega
  length_le := by
    have hlen := h.length_le
    rw [List.length_drop]
    omega
  holds := hholds

/-- Restarting the indices of an empty queue changes no element. -/
theorem normalizeIfEmpty (h : Represents T q k d xs) :
    ∃ d', Represents T q.normalizeIfEmpty k d' xs := by
  rw [Queue.normalizeIfEmpty]
  by_cases hempty : q.head = q.tail
  · have hnil := h.head_eq_tail_iff.mp hempty
    subst hnil
    rw [if_pos hempty]
    exact ⟨0, {
      sized := ⟨h.sized.capacity_eq, h.sized.mask_eq, h.sized.bytes, h.sized.room_le⟩
      head_eq := rfl
      tail_eq := rfl
      length_le := Nat.zero_le _
      holds := holds_nil }⟩
  · rw [if_neg hempty]
    exact ⟨d, h⟩

theorem destroyAll_eq {ys : List α} (p i n : Nat) (hsized : Sized T q k)
    (hholds : Holds (2 ^ k) q.buffer (p + i + n) ys) (hlap : n + ys.length ≤ 2 ^ k) :
    ∃ buffer, Queue.destroyAll (BitVec.ofNat 64 p) i n q = { q with buffer } ∧
      Holds (2 ^ k) buffer (p + i + n) ys := by
  induction n generalizing q i with
  | zero => exact ⟨q.buffer, rfl, hholds⟩
  | succ n ih =>
      have hnext : p + i + (n + 1) = p + (i + 1) + n := by omega
      rw [Queue.destroyAll, ← BitVec.ofNat_add, Queue.destroy, hsized.index_ofNat, hnext]
      rw [hnext] at hholds
      have hkept : Holds (2 ^ k) (Function.update q.buffer ((p + i) % 2 ^ k) none)
          (p + (i + 1) + n) ys :=
        hholds.update_before (by omega) (by omega) none
      have hsized' : Sized T
          { q with buffer := Function.update q.buffer ((p + i) % 2 ^ k) none } k :=
        ⟨hsized.capacity_eq, hsized.mask_eq, hsized.bytes, hsized.room_le⟩
      exact ih (i + 1) hsized' hkept (by omega)

end Represents

/-! ## Calls -/

def Represented (T : ElementType) (q : Queue α) (xs : List α) : Prop :=
  ∃ k d, Represents T q k d xs

def Grown {ρ : Type} (T : ElementType) (grants : SizeT → Bool) (xs added : List α)
    (result : ρ) (o : Outcome α ρ) : Prop :=
  (∃ q', o = .badAlloc q' ∧ Represented T q' xs ∧ 0 < added.length ∧
      ∃ n : SizeT, n.toNat < 2 * (xs.length + added.length) ∧ allocItems T grants n = none) ∨
    ∃ q', o = .returned result q' ∧ Represented T q' (xs ++ added)

def Answers (T : ElementType) (grants : SizeT → Bool) (xs : List α) (call : Call α)
    (o : Outcome α (Answer α)) : Prop :=
  (∃ q', o = .badAlloc q' ∧ Represented T q' xs ∧ call.Refused T grants xs) ∨
    ∃ q', o = .returned (call.spec xs).1 q' ∧ Represented T q' (call.spec xs).2

theorem Grown.answers {ρ : Type} {added : List α} {result : ρ} {o : Outcome α ρ}
    (h : Grown T grants xs added result o) {call : Call α} {f : ρ → Answer α}
    (hadds : call.adds = added.length) (hspec : call.spec xs = (f result, xs ++ added)) :
    Answers T grants xs call (o.map f) := by
  rcases h with ⟨q', ho, hq', hpos, hrefused⟩ | ⟨q', ho, hq'⟩
  · left
    rw [ho]
    rw [← hadds] at hpos hrefused
    exact ⟨q', rfl, hq', hpos, hrefused⟩
  · right
    rw [ho, hspec]
    exact ⟨q', rfl, hq'⟩

namespace Represented

theorem constructAtTail (h : Represented T q xs) (grants : SizeT → Bool) (item : α) :
    Grown T grants xs [item] () (q.constructAtTail T grants item) := by
  obtain ⟨k, d, h⟩ := h
  have hlen := h.length_le
  have hfull : q.tail - q.head = q.capacity ↔ xs.length = 2 ^ k := by
    rw [← h.sized.toNat_capacity, ← h.toNat_size]
    exact BitVec.toNat_inj.symm
  -- with a free cell left, construct and count
  have hstore : ∀ {q : Queue α} {k d : Nat}, Represents T q k d xs → xs.length < 2 ^ k →
      ∃ q', q.construct (q.index q.tail) item = some q' ∧
        Represented T { q' with tail := q.tail + 1 } (xs ++ [item]) := by
    intro q k d h hroom
    rw [h.tail_eq, h.sized.construct_eq, ← h.tail_eq]
    exact ⟨_, rfl, k, d, h.push hroom item⟩
  rw [Queue.constructAtTail]
  by_cases hgrow : q.tail - q.head = q.capacity
  · rw [if_pos hgrow]
    rcases h.grow_spec grants with ⟨hthrow, hrefused⟩ | ⟨q', hgrown, hq'⟩
    · left
      rw [hthrow]
      refine ⟨q, rfl, ⟨k, d, h⟩, Nat.zero_lt_one, q.capacity * 2, ?_, hrefused⟩
      rw [h.toNat_double.1, hfull.mp hgrow, List.length_singleton, Nat.pow_succ]
      omega
    · right
      rw [hgrown]
      have hroom : xs.length < 2 ^ (k + 1) := by
        have hpos : 0 < 2 ^ k := Sized.cap_pos
        rw [Nat.pow_succ]
        omega
      obtain ⟨p, hstored, hp⟩ := hstore hq' hroom
      dsimp only
      rw [hstored]
      exact ⟨_, rfl, hp⟩
  · right
    have hroom : xs.length < 2 ^ k := by
      have hne : xs.length ≠ 2 ^ k := fun heq => hgrow (hfull.mpr heq)
      omega
    obtain ⟨p, hstored, hp⟩ := hstore h hroom
    rw [if_neg hgrow]
    dsimp only
    rw [hstored]
    exact ⟨_, rfl, hp⟩

/-- A bulk call, whose elements go around the ring by whatever means. -/
theorem storeBulk (h : Represented T q xs) (grants : SizeT → Bool) {src : List α}
    (hfit : xs.length + src.length < 2 ^ 64) {store : Queue α → SizeT → Option (Queue α)}
    (hstore : ∀ {q : Queue α} {k p : Nat}, Sized T q k → q.tail = BitVec.ofNat 64 p →
      0 < src.length → src.length ≤ 2 ^ k →
        store q (BitVec.ofNat 64 src.length) =
          some { q with buffer := fill (2 ^ k) q.buffer p src }) :
    Grown T grants xs src (BitVec.ofNat 64 src.length) (q.storeBulk T grants src store) := by
  have hcount : (BitVec.ofNat 64 src.length).toNat = src.length := by
    rw [BitVec.toNat_ofNat, Nat.mod_eq_of_lt (by omega)]
  rw [Queue.storeBulk]
  by_cases hzero : BitVec.ofNat 64 src.length = 0
  · right
    have hnil : src = [] := by
      rw [hzero] at hcount
      exact List.eq_nil_of_length_eq_zero hcount.symm
    rw [if_pos hzero, hnil, List.append_nil]
    exact ⟨q, rfl, h⟩
  · obtain ⟨k, d, h⟩ := h
    have hpos : 0 < src.length := by
      apply Nat.pos_of_ne_zero
      intro hlen
      apply hzero
      rw [hlen]
      rfl
    have hneed : (q.size + BitVec.ofNat 64 src.length).toNat = xs.length + src.length := by
      rw [h.size_eq, ← BitVec.ofNat_add, BitVec.toNat_ofNat, Nat.mod_eq_of_lt hfit]
    have hfuel : 2 ^ 63 ≤ 2 ^ k * 2 ^ Queue.enoughGrowth :=
      calc 2 ^ 63 ≤ 2 ^ 64 := by decide
        _ ≤ 2 ^ k * 2 ^ 64 := Nat.le_mul_of_pos_left _ Sized.cap_pos
    rw [if_neg hzero]
    rcases h.growWhile_spec grants _ _ hfuel with
      ⟨q', k', d', hthrow, hq', n, hn, hrefused⟩ | ⟨q', k', d', hgrown, hq', hroom⟩
    · left
      rw [hneed] at hn
      rw [hthrow]
      exact ⟨q', rfl, ⟨k', d', hq'⟩, hpos, n, hn, hrefused⟩
    · right
      rw [hneed] at hroom
      rw [hgrown]
      simp only [hstore hq'.sized hq'.tail_eq hpos (by omega)]
      exact ⟨_, rfl, k', d', hq'.append hroom⟩

theorem enqueueBulk (h : Represented T q xs) (grants : SizeT → Bool) (sameType : Bool)
    {src : List α} (hfit : xs.length + src.length < 2 ^ 64) :
    Grown T grants xs src (BitVec.ofNat 64 src.length)
      (q.enqueueBulk T grants sameType src) := by
  rw [Queue.enqueueBulk]
  apply h.storeBulk grants hfit
  intro q k p hsized htail hpos hlap
  split
  · exact hsized.copyAll_eq htail hpos hlap
  · rw [htail, hsized.constructAll_eq, Nat.add_zero, htail]

theorem enqueueBulkEmplace (h : Represented T q xs) (grants : SizeT → Bool) {made : List α}
    (hfit : xs.length + made.length < 2 ^ 64) :
    Grown T grants xs made (BitVec.ofNat 64 made.length)
      (q.enqueueBulkEmplace T grants made) := by
  rw [Queue.enqueueBulkEmplace]
  apply h.storeBulk grants hfit
  intro q k p hsized htail _ _
  rw [htail, hsized.constructAll_eq, Nat.add_zero, htail]

theorem normalizeIfEmpty (h : Represented T q xs) : Represented T q.normalizeIfEmpty xs := by
  obtain ⟨k, d, h⟩ := h
  obtain ⟨d', h'⟩ := h.normalizeIfEmpty
  exact ⟨k, d', h'⟩

theorem dequeue (h : Represented T q xs) :
    ∃ q', q.dequeue T = .returned xs.head? q' ∧ Represented T q' xs.tail := by
  have hq := h
  obtain ⟨k, d, h⟩ := h
  rw [Queue.dequeue]
  cases hxs : xs with
  | nil =>
      rw [if_pos (h.head_eq_tail_iff.mpr hxs)]
      rw [hxs] at hq
      exact ⟨q, rfl, hq⟩
  | cons x rest =>
      have hlen := h.length_le
      rw [hxs] at h hlen
      have hpos : 0 < (x :: rest).length := Nat.zero_lt_succ _
      have hne : ¬q.head = q.tail := fun heq => List.cons_ne_nil x rest (h.head_eq_tail_iff.mp heq)
      have hindex : q.index q.head = d % 2 ^ k := by
        rw [h.head_eq]
        exact h.sized.index_ofNat d
      have hload : q.load (d % 2 ^ k) = some x := h.load_eq hpos
      have hholds := h.holds.drop 1
      rw [if_neg hne, hindex, hload]
      refine ⟨_, rfl, normalizeIfEmpty ?_⟩
      split
      · exact ⟨k, d + 1, h.advance (n := 1) hpos hholds⟩
      · rw [List.length_cons] at hlen
        have hkept := hholds.update_before (p := d) (by omega)
          (by rw [List.length_drop, List.length_cons]; omega) none
        exact ⟨k, d + 1, h.advance (n := 1) hpos hkept⟩

theorem dequeueBulk (h : Represented T q xs) (maxCount : SizeT) :
    ∃ n q', q.dequeueBulk T maxCount = .returned (n, xs.take maxCount.toNat) q' ∧
      n.toNat = min xs.length maxCount.toNat ∧ Represented T q' (xs.drop maxCount.toNat) := by
  have hq := h
  obtain ⟨k, d, h⟩ := h
  have hlen := h.length_le
  have hsize := h.toNat_size
  rw [Queue.size] at hsize
  rw [Queue.dequeueBulk]
  by_cases hnone : q.tail - q.head = 0 ∨ maxCount = 0
  · rw [if_pos hnone]
    rcases hnone with hempty | hzero
    · have hnil : xs = [] := by
        rw [hempty] at hsize
        exact List.eq_nil_of_length_eq_zero hsize.symm
      subst hnil
      refine ⟨0, q, by rw [List.take_nil], by simp, ?_⟩
      rw [List.drop_nil]
      exact hq
    · subst hzero
      exact ⟨0, q, rfl, by simp, hq⟩
  · rw [if_neg hnone]
    -- the count is a position up to which the list can be cut
    have hcount : ∃ n, (if q.tail - q.head < maxCount then q.tail - q.head else maxCount) =
        BitVec.ofNat 64 n ∧ n = min xs.length maxCount.toNat := by
      split
      case isTrue hlt =>
        rw [BitVec.lt_def, hsize] at hlt
        exact ⟨xs.length, h.size_eq, by omega⟩
      case isFalse hge =>
        rw [BitVec.lt_def, hsize] at hge
        exact ⟨maxCount.toNat, by rw [BitVec.ofNat_toNat, BitVec.setWidth_eq], by omega⟩
    obtain ⟨n, hcount, hn⟩ := hcount
    have hpos : 0 < n := by
      have hlen0 : xs.length ≠ 0 := by
        intro hzero
        apply hnone
        left
        apply BitVec.eq_of_toNat_eq
        rw [hsize, hzero]
        rfl
      have hmax0 : maxCount.toNat ≠ 0 := by
        intro hzero
        apply hnone
        right
        apply BitVec.eq_of_toNat_eq
        exact hzero
      omega
    have hcap := h.sized.cap_lt
    have htoNat : (BitVec.ofNat 64 n).toNat = n := by
      rw [BitVec.toNat_ofNat, Nat.mod_eq_of_lt (by omega)]
    have htake : xs.take n = xs.take maxCount.toNat := by
      rw [hn, Nat.min_comm, ← List.take_eq_take_min]
    have hdrop : xs.drop n = xs.drop maxCount.toNat := by
      by_cases hle : xs.length ≤ maxCount.toNat
      · rw [List.drop_eq_nil_of_le hle, List.drop_eq_nil_of_le (by omega)]
      · rw [hn, Nat.min_eq_right (by omega)]
    rw [hcount]
    have hout : (if T.triviallyCopyable then q.copyOut (BitVec.ofNat 64 n)
        else q.moveOut q.head (BitVec.ofNat 64 n).toNat) = some (xs.take maxCount.toNat) := by
      rw [htoNat, ← htake]
      split
      · exact h.copyOut_eq hpos (by omega)
      · exact h.moveOut_eq (by omega)
    simp only [hout]
    refine ⟨BitVec.ofNat 64 n, _, rfl, by rw [htoNat, hn], normalizeIfEmpty ?_⟩
    rw [← hdrop]
    have hholds := h.holds.drop n
    split
    · exact ⟨k, d + n, h.advance (by omega) hholds⟩
    · obtain ⟨buffer, hbuffer, hkept⟩ := Represents.destroyAll_eq d 0 n h.sized hholds
        (by rw [List.length_drop]; omega)
      rw [htoNat, h.head_eq, hbuffer, ← h.head_eq]
      exact ⟨k, d + n, h.advance (by omega) hkept⟩

/-- Every call answers as the list does. -/
theorem exec (h : Represented T q xs) (grants : SizeT → Bool) (call : Call α)
    (hfit : xs.length + call.adds < 2 ^ 64) :
    Answers T grants xs call (call.exec T grants q) := by
  have hcount : ∀ items : Batch α, (BitVec.ofNat 64 items.items.length).toNat =
      items.items.length := by
    intro items
    rw [BitVec.toNat_ofNat, Nat.mod_eq_of_lt items.fits]
  cases call with
  | enqueue item => exact (h.constructAtTail grants item).answers rfl rfl
  | emplace made => exact (h.constructAtTail grants made).answers rfl rfl
  | enqueueBulk sameType src =>
      exact (h.enqueueBulk grants sameType hfit).answers rfl (by rw [hcount]; rfl)
  | enqueueBulkEmplace made =>
      exact (h.enqueueBulkEmplace grants hfit).answers rfl (by rw [hcount]; rfl)
  | dequeue =>
      obtain ⟨q', ho, hq'⟩ := h.dequeue
      right
      rw [Call.exec, ho]
      exact ⟨q', rfl, hq'⟩
  | dequeueBulk maxCount =>
      obtain ⟨n, q', ho, hn, hq'⟩ := h.dequeueBulk maxCount
      right
      rw [Call.exec, ho, Call.spec, ← hn]
      exact ⟨q', rfl, hq'⟩
  | size =>
      obtain ⟨k, d, hrep⟩ := h
      right
      rw [Call.exec, hrep.toNat_size]
      exact ⟨q, rfl, k, d, hrep⟩
  | empty =>
      obtain ⟨k, d, hrep⟩ := h
      right
      have hempty : q.empty = xs.isEmpty := by
        rw [Queue.empty, Bool.eq_iff_iff, decide_eq_true_iff, hrep.head_eq_tail_iff,
          List.isEmpty_iff]
      rw [Call.exec, hempty]
      exact ⟨q, rfl, k, d, hrep⟩

theorem inStep (h : Represented T q xs) (steps : List (Step α)) (hfit : CountsFit T q steps) :
    InStep T q xs steps := by
  induction steps generalizing q xs with
  | nil => trivial
  | cons step rest ih =>
      obtain ⟨hnow, hlater⟩ := hfit
      obtain ⟨k, d, hrep⟩ := h
      rw [hrep.toNat_size] at hnow
      rw [InStep]
      rcases exec ⟨k, d, hrep⟩ step.grants step.call hnow with
        ⟨q', ho, hq', hrefused⟩ | ⟨q', ho, hq'⟩
      · rw [ho] at hlater ⊢
        exact ⟨hrefused, ih hq' hlater⟩
      · rw [ho] at hlater ⊢
        exact ⟨rfl, ih hq' hlater⟩

end Represented

/-! ## The constructor -/

theorem nextPow2_eq_two_pow {cap : SizeT} (hcap : cap.toNat ≤ 2 ^ 63) :
    ∃ k, k ≤ 63 ∧ (nextPow2 cap).toNat = 2 ^ k := by
  rw [nextPow2_eq]
  by_cases htwo : 2 ≤ cap.toNat
  · obtain ⟨k, _, hk, heq⟩ := Queue.MpmcQueue.nextPow2_eq_two_pow htwo
      ((Queue.MpmcQueue.nextPow2_ne_zero_iff htwo).mpr hcap)
    exact ⟨k, hk, heq⟩
  · rw [Queue.MpmcQueue.nextPow2_of_le_one (by omega)]
    exact ⟨0, Nat.zero_le _, rfl⟩

theorem represented_allocate {cap : SizeT} (hcap : Allocatable T cap)
    (hq : Queue.allocate T grants cap = some q) : Represented T q [] := by
  obtain ⟨hle, hbytes⟩ := hcap
  obtain ⟨k, hk, hpow⟩ := nextPow2_eq_two_pow hle
  rw [Queue.allocate, Option.map_eq_some_iff] at hq
  obtain ⟨room, halloc, rfl⟩ := hq
  obtain ⟨hroom, hfit⟩ := allocItems_eq_some halloc hbytes
  rw [hpow] at hroom hfit
  have hlt : 2 ^ k < 2 ^ 64 := Nat.pow_lt_pow_right (by decide) (by omega)
  have hcapacity : nextPow2 cap = BitVec.ofNat 64 (2 ^ k) := by
    apply BitVec.eq_of_toNat_eq
    rw [hpow, BitVec.toNat_ofNat, Nat.mod_eq_of_lt hlt]
  refine ⟨k, 0, ⟨hcapacity, ?_, hfit, Nat.le_of_eq hroom.symm⟩, rfl, rfl, Nat.zero_le _, holds_nil⟩
  have hone : 1 ≤ 2 ^ k := Nat.one_le_two_pow
  apply BitVec.eq_of_toNat_eq
  rw [BitVec.toNat_sub_of_le, hpow, BitVec.toNat_ofNat, Nat.mod_eq_of_lt (by omega)]
  · rfl
  · rw [BitVec.le_def, hpow]
    exact hone

theorem zero_add_pos (pos : SizeT) : 0 + pos = pos := BitVec.zero_add pos

theorem allocItems_zero (T : ElementType) : allocItems T (fun _ => true) 0 = some 0 := by
  have hbytes : T.sizeof * 0 = 0 := BitVec.mul_zero
  rw [allocItems, hbytes, if_pos ⟨by decide, rfl⟩]
  exact congrArg some (Nat.zero_div _)

/-- Above `2^63` the capacity rounds to none, growing doubles nothing, and the first
element is constructed outside the block. -/
theorem enqueue_undefined {cap : SizeT} (hcap : 2 ^ 63 < cap.toNat)
    (hq : Queue.allocate T grants cap = some q) (item : α) :
    q.enqueue T (fun _ => true) item = .undefined := by
  have hzero : nextPow2 cap = 0 := by
    by_contra hne
    rw [nextPow2_eq] at hne
    have hle := (Queue.MpmcQueue.nextPow2_ne_zero_iff (by omega)).mp hne
    omega
  rw [Queue.allocate, Option.map_eq_some_iff, hzero] at hq
  obtain ⟨room, _, rfl⟩ := hq
  have hdouble : (0 : SizeT) * 2 = 0 := by decide
  have hsize : (0 : SizeT) - 0 = 0 := by decide
  have hread : ∀ q : Queue α, q.moveOut 0 (0 : SizeT).toNat = some [] := fun _ => rfl
  rw [Queue.enqueue, Queue.constructAtTail]
  simp only [hsize, if_true, Queue.grow, hdouble, allocItems_zero, Queue.size, hread,
    List.length_nil, Nat.le_refl, Queue.construct, Nat.not_lt_zero, if_false]

/-- With fewer cells than the capacity, the run of elements that fills the block and
one more leaves it. -/
theorem constructAll_undefined (hindex : ∀ i, i ≤ q.room → q.index (BitVec.ofNat 64 i) = i)
    (item : α) (i n : Nat) (hi : i + n = q.room) :
    Queue.constructAll 0 i (List.replicate (n + 1) item) q = none := by
  induction n generalizing q i with
  | zero =>
      rw [List.replicate_one, Queue.constructAll, zero_add_pos, hindex i (by omega),
        Queue.construct, if_neg (by omega)]
      rfl
  | succ n ih =>
      rw [List.replicate_succ, Queue.constructAll, zero_add_pos, hindex i (by omega),
        Queue.construct, if_pos (by omega), Option.bind_some]
      apply ih
      · exact hindex
      · change i + 1 + n = q.room
        omega

theorem enqueueBulkEmplace_undefined {cap : SizeT} (hcap : cap.toNat ≤ 2 ^ 63)
    (hbytes : 2 ^ 64 ≤ T.sizeof.toNat * (nextPow2 cap).toNat)
    (hq : Queue.allocate T grants cap = some q) (item : α) :
    q.room < 2 ^ 63 ∧
      q.enqueueBulkEmplace T (fun _ => true) (List.replicate (q.room + 1) item) =
        .undefined := by
  obtain ⟨k, hk, hpow⟩ := nextPow2_eq_two_pow hcap
  rw [Queue.allocate, Option.map_eq_some_iff] at hq
  obtain ⟨room, halloc, rfl⟩ := hq
  have hle : 2 ^ k ≤ 2 ^ 63 := Nat.pow_le_pow_right (by decide) hk
  have hroom : room < 2 ^ k := by
    simp only [allocItems] at halloc
    split at halloc
    case isFalse => exact absurd halloc (by simp)
    case isTrue hgranted =>
      rw [← Option.some.inj halloc]
      apply Nat.div_lt_of_lt_mul
      rw [← hpow]
      have hlt := (T.sizeof * nextPow2 cap).isLt
      omega
  have hlen : (List.replicate (room + 1) item).length = room + 1 := List.length_replicate
  have hcount : (BitVec.ofNat 64 (room + 1)).toNat = room + 1 := by
    rw [BitVec.toNat_ofNat, Nat.mod_eq_of_lt (by omega)]
  refine ⟨by change room < _; omega, ?_⟩
  have hne : ¬BitVec.ofNat 64 (room + 1) = 0 := by
    intro hzero
    rw [hzero] at hcount
    exact absurd hcount (by simp)
  have hfits : (0 : SizeT) + BitVec.ofNat 64 (room + 1) ≤ nextPow2 cap := by
    rw [zero_add_pos, BitVec.le_def, hcount, hpow]
    exact hroom
  have hsize : (0 : SizeT) - 0 = 0 := by decide
  rw [Queue.enqueueBulkEmplace, Queue.storeBulk]
  simp only [hlen]
  rw [if_neg hne, Queue.enoughGrowth, Queue.growWhile, Queue.size, hsize, if_pos hfits]
  simp only
  rw [constructAll_undefined ?_ item 0 room (Nat.zero_add _)]
  intro i hi
  have hone : 1 ≤ 2 ^ k := Nat.one_le_two_pow
  have hmask : (nextPow2 cap - 1).toNat = 2 ^ k - 1 := by
    rw [BitVec.toNat_sub_of_le, hpow]
    · rfl
    · rw [BitVec.le_def, hpow]
      exact hone
  change i ≤ room at hi
  rw [Queue.index, BitVec.toNat_and, hmask, BitVec.toNat_ofNat, Nat.and_two_pow_sub_one_eq_mod,
    Nat.mod_eq_of_lt (show i < 2 ^ 64 by omega), Nat.mod_eq_of_lt (by omega)]

/-- A queue that could be built goes with the list in every run, growth, wrap-around
and refused allocations included, exactly where its constructor's arithmetic did
not wrap. -/
theorem like_list_iff {cap : SizeT} (item : α) (hq : Queue.allocate T grants cap = some q) :
    (∀ steps : List (Step α), CountsFit T q steps → InStep T q [] steps) ↔ Allocatable T cap := by
  constructor
  · intro hlist
    have hsize : q.size.toNat = 0 := by
      rw [Queue.allocate, Option.map_eq_some_iff] at hq
      obtain ⟨room, _, rfl⟩ := hq
      change ((0 : SizeT) - 0).toNat = 0
      decide
    by_contra hwrap
    by_cases hcap : cap.toNat ≤ 2 ^ 63
    · have hbytes : 2 ^ 64 ≤ T.sizeof.toNat * (nextPow2 cap).toNat := by
        by_contra hlt
        exact hwrap ⟨hcap, by omega⟩
      obtain ⟨hroom, hundefined⟩ := enqueueBulkEmplace_undefined hcap hbytes hq item
      let made : Batch α := ⟨List.replicate (q.room + 1) item, by
        rw [List.length_replicate]
        omega⟩
      have hexec : Call.exec T (fun _ => true) q (.enqueueBulkEmplace made) = .undefined := by
        rw [Call.exec, hundefined]
        rfl
      have hrun := hlist [⟨.enqueueBulkEmplace made, fun _ => true⟩]
      rw [InStep, CountsFit, hexec] at hrun
      apply hrun
      refine ⟨?_, trivial⟩
      rw [hsize, Nat.zero_add]
      exact made.fits
    · have hexec : Call.exec T (fun _ => true) q (.enqueue item) = .undefined := by
        rw [Call.exec, enqueue_undefined (by omega) hq]
        rfl
      have hrun := hlist [⟨.enqueue item, fun _ => true⟩]
      rw [InStep, CountsFit, hexec] at hrun
      apply hrun
      refine ⟨?_, trivial⟩
      rw [hsize]
      exact (by decide : 0 + 1 < 2 ^ 64)
  · intro hcap steps hfit
    exact (represented_allocate hcap hq).inStep steps hfit

def word : ElementType := ⟨8, true, true, by decide⟩

/-- A queue for three words, given all the memory it asks for. -/
theorem three_words_like_list :
    ∃ q : Queue Nat, Queue.allocate word (fun _ => true) 3 = some q ∧
      ∀ steps : List (Step Nat), CountsFit word q steps → InStep word q [] steps :=
  have hbuilt : Queue.allocate word (fun _ => true) 3 =
      some ⟨fun _ => none, 4, 4, 0, 0, 3⟩ := rfl
  ⟨_, hbuilt, (like_list_iff 0 hbuilt).mpr (by decide)⟩

/-- `Queue<uint64_t>(2^61)` asks for `2^64` bytes, that is none, and constructs its
first element outside the block. -/
theorem not_like_list :
    ¬∀ (T : ElementType) (grants : SizeT → Bool) (cap : SizeT) (q : Queue Nat),
      Queue.allocate T grants cap = some q → ∀ steps : List (Step Nat), InStep T q [] steps := by
  intro hlist
  have hbuilt : Queue.allocate word (fun _ => true) (BitVec.ofNat 64 (2 ^ 61)) =
      some (⟨fun _ => none, 0, BitVec.ofNat 64 (2 ^ 61), 0, 0, BitVec.ofNat 64 (2 ^ 61 - 1)⟩ :
        Queue Nat) := by
    rw [Queue.allocate, show nextPow2 (BitVec.ofNat 64 (2 ^ 61)) = BitVec.ofNat 64 (2 ^ 61) by
      decide]
    rfl
  exact hlist _ _ _ _ hbuilt [⟨.enqueue 0, fun _ => true⟩]

end Uvent.SingleThread
