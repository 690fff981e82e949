import Uvent.Net.HappyCounts

/-!
# The loop of `weave_tail`

The race works with the two lists already alternated.  `weave_tail` itself goes through both of
them with one index and asks for room before every push; what it leaves in the list is the same,
and it is the alternation of the two, cut at the cap.
-/

namespace Uvent.Net.HappyEyeballs

variable {Addr : Type}

/-- `PTRDIFF_MAX`: no `std::vector` holds more elements. -/
def ptrdiffMax : Nat := 2 ^ 63 - 1

/-- `if (i < list.size() && st.addrs.size() < cap) st.addrs.push_back(std::move(list[i]))`. -/
def pushAt (cap : Nat) (list : List Addr) (i : Nat) (addrs : List Addr) : List Addr :=
  if h : i < list.length ∧ addrs.length < cap then addrs ++ [list[i]] else addrs

/-- The loop of `weave_tail` from `i`. -/
def weaveLoop (cap : Nat) (first second : List Addr) (i : Nat) (addrs : List Addr) : List Addr :=
  if i < first.length ∨ i < second.length then
    weaveLoop cap first second (i + 1) (pushAt cap second i (pushAt cap first i addrs))
  else addrs
termination_by max first.length second.length - i

/-- `weave_tail` as it is written. -/
def State.weave (s : State Addr) (found : List Addr) (foundFirst : Bool) : State Addr :=
  let tail := s.addrs.drop s.nextIdx
  let cap := if s.maxAttempts ≠ 0 then max s.maxAttempts s.nextIdx else sizeMax
  let first := if foundFirst then found else tail
  let second := if foundFirst then tail else found
  { s with addrs := weaveLoop cap first second 0 (s.addrs.take s.nextIdx) }

/-- One after the other as long as both last, and then what is left of the longer one. -/
structure Alternation (first second merged : List Addr) : Prop where
  length : merged.length = first.length + second.length
  first_at : ∀ i < first.length, merged[i + min i second.length]? = first[i]?
  second_at : ∀ i < second.length, merged[min (i + 1) first.length + i]? = second[i]?

/-! ### The loop and the fold -/

theorem pushAt_eq (cap : Nat) (list : List Addr) (i : Nat) (addrs : List Addr) :
    pushAt cap list i addrs =
      list[i]?.toList.foldl (fun acc a => if acc.length < cap then acc ++ [a] else acc) addrs := by
  unfold pushAt
  by_cases hi : i < list.length
  · rw [List.getElem?_eq_getElem hi]
    by_cases hroom : addrs.length < cap
    · rw [dif_pos ⟨hi, hroom⟩]
      simp [hroom]
    · rw [dif_neg (fun h => hroom h.2)]
      simp [hroom]
  · rw [dif_neg (fun h => hi h.1), List.getElem?_eq_none (Nat.le_of_not_lt hi)]
    rfl

theorem interleave_drop (first second : List Addr) (i : Nat) :
    interleave (first.drop i) (second.drop i) =
      first[i]?.toList ++ second[i]?.toList ++
        interleave (first.drop (i + 1)) (second.drop (i + 1)) := by
  by_cases h₁ : i < first.length
  · by_cases h₂ : i < second.length
    · rw [List.drop_eq_getElem_cons h₁, List.drop_eq_getElem_cons h₂,
        List.getElem?_eq_getElem h₁, List.getElem?_eq_getElem h₂]
      rfl
    · have hend : second.drop (i + 1) = [] := List.drop_eq_nil_of_le (by omega)
      rw [List.drop_eq_getElem_cons h₁, List.drop_eq_nil_of_le (Nat.le_of_not_lt h₂),
        List.getElem?_eq_getElem h₁, List.getElem?_eq_none (Nat.le_of_not_lt h₂), hend]
      cases first.drop (i + 1) <;> rfl
  · rw [List.drop_eq_nil_of_le (Nat.le_of_not_lt h₁),
      List.drop_eq_nil_of_le (show first.length ≤ i + 1 by omega),
      List.getElem?_eq_none (Nat.le_of_not_lt h₁)]
    change second.drop i = second[i]?.toList ++ second.drop (i + 1)
    by_cases h₂ : i < second.length
    · rw [List.drop_eq_getElem_cons h₂, List.getElem?_eq_getElem h₂]
      rfl
    · rw [List.drop_eq_nil_of_le (Nat.le_of_not_lt h₂),
        List.drop_eq_nil_of_le (show second.length ≤ i + 1 by omega),
        List.getElem?_eq_none (Nat.le_of_not_lt h₂)]
      rfl

theorem weaveLoop_eq (cap : Nat) (first second : List Addr) (i : Nat) (addrs : List Addr) :
    weaveLoop cap first second i addrs =
      (interleave (first.drop i) (second.drop i)).foldl
        (fun acc a => if acc.length < cap then acc ++ [a] else acc) addrs := by
  fun_induction weaveLoop cap first second i addrs with
  | case1 i addrs hmore ih =>
      rw [ih, interleave_drop first second i, List.foldl_append, List.foldl_append, pushAt_eq,
        pushAt_eq]
  | case2 i addrs hend =>
      rw [List.drop_eq_nil_of_le (show first.length ≤ i by omega),
        List.drop_eq_nil_of_le (show second.length ≤ i by omega)]
      rfl

/-- The step of the race is `weave_tail`. -/
theorem weave_eq (s : State Addr) (found : List Addr) (foundFirst : Bool) :
    s.weave found foundFirst = s.weaveTail found foundFirst := by
  unfold State.weave State.weaveTail
  simp only [weaveLoop_eq, List.drop_zero]

/-! ### The alternation -/

theorem interleave_alternation (first second : List Addr) :
    Alternation first second (interleave first second) := by
  induction first generalizing second with
  | nil =>
      refine ⟨(Nat.zero_add _).symm, fun i hi => absurd hi (Nat.not_lt_zero i), fun i _ => ?_⟩
      rw [List.length_nil, Nat.min_zero, Nat.zero_add]
      rfl
  | cons a first ih =>
      cases second with
      | nil =>
          refine ⟨rfl, fun i _ => ?_, fun i hi => absurd hi (Nat.not_lt_zero i)⟩
          rw [List.length_nil, Nat.min_zero, Nat.add_zero]
          rfl
      | cons b second =>
          have ht := ih second
          refine ⟨?_, fun i hi => ?_, fun i hi => ?_⟩
          · change (interleave first second).length + 1 + 1 = first.length + 1 + (second.length + 1)
            rw [ht.length]
            omega
          · change (a :: b :: interleave first second)[i + min i (second.length + 1)]? = _
            cases i with
            | zero =>
                rw [Nat.zero_min]
                rfl
            | succ i =>
                have hpos : i + 1 + min (i + 1) (second.length + 1) =
                    i + min i second.length + 1 + 1 := by omega
                rw [hpos, List.getElem?_cons_succ, List.getElem?_cons_succ,
                  List.getElem?_cons_succ]
                exact ht.first_at i (Nat.lt_of_succ_lt_succ hi)
          · change (a :: b :: interleave first second)[min (i + 1) (first.length + 1) + i]? = _
            cases i with
            | zero =>
                have hpos : min (0 + 1) (first.length + 1) + 0 = 1 := by omega
                rw [hpos]
                rfl
            | succ i =>
                have hpos : min (i + 1 + 1) (first.length + 1) + (i + 1) =
                    min (i + 1) first.length + i + 1 + 1 := by omega
                rw [hpos, List.getElem?_cons_succ, List.getElem?_cons_succ,
                  List.getElem?_cons_succ]
                exact ht.second_at i (Nat.lt_of_succ_lt_succ hi)

/-- What is cut is a front of each of the two lists, in its order. -/
theorem interleave_take (first second : List Addr) (k : Nat) :
    ∃ m n, ((interleave first second).take k).Perm (first.take m ++ second.take n) ∧
      (first.take m).Sublist ((interleave first second).take k) ∧
      (second.take n).Sublist ((interleave first second).take k) := by
  induction first generalizing second k with
  | nil => exact ⟨0, k, List.Perm.refl _, List.nil_sublist _, List.Sublist.refl _⟩
  | cons a first ih =>
      cases second with
      | nil =>
          refine ⟨k, 0, ?_, List.Sublist.refl _, List.nil_sublist _⟩
          rw [List.take_zero, List.append_nil]
          exact List.Perm.refl _
      | cons b second =>
          change ∃ m n, ((a :: b :: interleave first second).take k).Perm _ ∧
            List.Sublist _ ((a :: b :: interleave first second).take k) ∧
            List.Sublist _ ((a :: b :: interleave first second).take k)
          match k with
          | 0 => exact ⟨0, 0, List.Perm.refl _, List.nil_sublist _, List.nil_sublist _⟩
          | 1 => exact ⟨1, 0, List.Perm.refl _, List.Sublist.refl _, List.nil_sublist _⟩
          | k + 2 =>
              obtain ⟨m, n, hperm, hfirst, hsecond⟩ := ih second k
              refine ⟨m + 1, n + 1, ?_, ?_, ?_⟩
              · change (a :: b :: (interleave first second).take k).Perm
                  (a :: (first.take m ++ b :: second.take n))
                exact ((hperm.cons b).trans List.perm_middle.symm).cons a
              · change (a :: first.take m).Sublist (a :: b :: (interleave first second).take k)
                exact (hfirst.cons b).cons_cons a
              · change (b :: second.take n).Sublist (a :: b :: (interleave first second).take k)
                exact (hsecond.cons_cons b).cons a

/-! ### What `weave_tail` leaves -/

theorem weaveTail_eq (s : State Addr) (found : List Addr) (foundFirst : Bool)
    (h : s.nextIdx ≤ s.addrs.length) :
    s.weaveTail found foundFirst =
      { s with
        addrs := s.addrs.take s.nextIdx ++
          (interleave (if foundFirst then found else s.addrs.drop s.nextIdx)
            (if foundFirst then s.addrs.drop s.nextIdx else found)).take (s.cap - s.nextIdx) } := by
  have hlen : (s.addrs.take s.nextIdx).length = s.nextIdx := by
    rw [List.length_take, Nat.min_eq_left h]
  unfold State.weaveTail
  simp only [foldl_push, hlen]
  rfl

/-- The front is kept, and behind it comes the alternation of the old tail and the answer, from
the one that is to be first; it is cut at the cap and nowhere else. -/
theorem weave_alternates (s : State Addr) (found : List Addr) (foundFirst : Bool)
    (h : s.nextIdx ≤ s.addrs.length) (hs : s.addrs.length ≤ ptrdiffMax)
    (hfound : found.length ≤ ptrdiffMax) :
    let first := if foundFirst then found else s.addrs.drop s.nextIdx
    let second := if foundFirst then s.addrs.drop s.nextIdx else found
    ∃ merged rest,
      Alternation first second merged ∧ merged.Perm (first ++ second) ∧
      s.weave found foundFirst = { s with addrs := s.addrs.take s.nextIdx ++ rest } ∧
      (s.maxAttempts = 0 → rest = merged) ∧
      (s.maxAttempts ≠ 0 → rest = merged.take (max s.maxAttempts s.nextIdx - s.nextIdx)) ∧
      (∃ m n, rest.Perm (first.take m ++ second.take n) ∧ (first.take m).Sublist rest ∧
        (second.take n).Sublist rest) ∧
      (rest ≠ merged → s.maxAttempts ≠ 0 ∧
        (s.weave found foundFirst).addrs.length = max s.maxAttempts s.nextIdx) := by
  intro first second
  have hlen : (s.addrs.take s.nextIdx).length = s.nextIdx := by
    rw [List.length_take, Nat.min_eq_left h]
  have halt := interleave_alternation first second
  have hweave : s.weave found foundFirst =
      { s with
        addrs := s.addrs.take s.nextIdx ++
          (interleave first second).take (s.cap - s.nextIdx) } := by
    rw [weave_eq, weaveTail_eq s found foundFirst h]
  have hfits : (interleave first second).length ≤ sizeMax - s.nextIdx := by
    have hdrop : (s.addrs.drop s.nextIdx).length = s.addrs.length - s.nextIdx := List.length_drop
    have hboth : first.length + second.length = s.addrs.length - s.nextIdx + found.length := by
      cases foundFirst with
      | true => exact (congrArg _ hdrop).trans (Nat.add_comm _ _)
      | false => exact congrArg (· + found.length) hdrop
    rw [halt.length, hboth]
    unfold ptrdiffMax at hs hfound
    unfold sizeMax
    omega
  have huncut : s.maxAttempts = 0 →
      (interleave first second).take (s.cap - s.nextIdx) = interleave first second := by
    intro hzero
    have hcap : s.cap = sizeMax := if_neg (fun hne => hne hzero)
    rw [hcap]
    exact List.take_of_length_le hfits
  have hcut : s.maxAttempts ≠ 0 → s.cap = max s.maxAttempts s.nextIdx := fun hne => if_pos hne
  refine ⟨interleave first second, (interleave first second).take (s.cap - s.nextIdx), halt,
    interleave_perm first second, hweave, huncut, ?_, interleave_take first second _, ?_⟩
  · intro hne
    rw [hcut hne]
  · intro hshort
    have hne : s.maxAttempts ≠ 0 := fun hzero => hshort (huncut hzero)
    have hover : s.cap - s.nextIdx < (interleave first second).length := by
      by_contra hcontra
      exact hshort (List.take_of_length_le (Nat.le_of_not_lt hcontra))
    refine ⟨hne, ?_⟩
    rw [hweave, List.length_append, hlen, List.length_take, Nat.min_eq_left (Nat.le_of_lt hover),
      hcut hne]
    omega

/-- Four addresses are known, one of them launched, and two are found with room for two more. -/
theorem weave_alternates_four :
    ∃ merged rest, Alternation [10, 11] [2, 3, 4] merged ∧
      ({ State.blank [1, 2, 3, 4] 5 with nextIdx := 1 }.weave [10, 11] true).addrs = 1 :: rest ∧
      rest = merged.take 4 := by
  obtain ⟨merged, rest, halt, -, hweave, -, hcut, -⟩ :=
    weave_alternates { State.blank [1, 2, 3, 4] 5 with nextIdx := 1 } [10, 11] true (by decide)
      (by decide) (by decide)
  exact ⟨merged, rest, halt, by rw [hweave]; rfl, hcut (by decide)⟩

end Uvent.Net.HappyEyeballs
