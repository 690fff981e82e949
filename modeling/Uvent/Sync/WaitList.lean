import Mathlib.Algebra.Group.Nat.Defs
import Mathlib.Data.List.Nodup
import Mathlib.Logic.Function.Basic
import Uvent.Lib.SiblingList

/-!
# The list of the waiters

`WaitList` keeps the nodes of the waiters from the head to the tail.  Its operations
run under the spinlock of the list, so that each of them is one step of whoever makes
it; `in_list` of a node says whether it is among them, and `count_` how many there are.
The links are `head_`, `tail_` and `count_` of the list, and `prev`, `next` and `in_list` of
the nodes; under the operations they are the list of the waiters, read from either end.
-/

namespace Uvent.Sync

open Uvent.Lib

section Lists

variable {ι : Type} [DecidableEq ι]

abbrev WaitList (ι : Type) := List ι

namespace WaitList

def pushLocked (l : WaitList ι) (w : ι) : WaitList ι := l ++ [w]

def popFrontLocked : WaitList ι → Option ι × WaitList ι
  | [] => (none, [])
  | w :: l => (some w, l)

def removeLocked (l : WaitList ι) (w : ι) : Bool × WaitList ι := (decide (w ∈ l), l.erase w)

def emptyRelaxed (l : WaitList ι) : Bool := l.isEmpty

end WaitList

end Lists

variable {ι : Type}

/-- A pointer is the node that it points to; `count` is the 32-bit `count_`. -/
structure WaitCells (ι : Type) where
  head : Option ι
  tail : Option ι
  prev : ι → Option ι
  next : ι → Option ι
  inList : ι → Bool
  count : BitVec 32

def WaitCells.new : WaitCells ι := ⟨none, none, fun _ => none, fun _ => none, fun _ => false, 0⟩

structure Linked (s : WaitCells ι) (l : WaitList ι) : Prop where
  forwards : Row s.next s.prev none s.head l
  backwards : Row s.prev s.next none s.tail l.reverse
  inList : ∀ w, s.inList w = true ↔ w ∈ l
  count : s.count = BitVec.ofNat 32 l.length
  nodup : l.Nodup

theorem linked_new : Linked (WaitCells.new : WaitCells ι) [] :=
  ⟨rfl, rfl, fun _ => ⟨nofun, nofun⟩, rfl, List.nodup_nil⟩

theorem Linked.tail_eq_none {s : WaitCells ι} {l : WaitList ι} (h : Linked s l) :
    s.tail = none ↔ l = [] := by
  rw [h.backwards.head, List.head?_eq_none_iff, List.reverse_eq_nil_iff]

variable [DecidableEq ι]

namespace WaitCells

def pushLocked (s : WaitCells ι) (w : ι) : WaitCells ι where
  prev := Function.update s.prev w s.tail
  next := setAt (Function.update s.next w none) s.tail (some w)
  head := if s.tail = none then some w else s.head
  tail := some w
  inList := Function.update s.inList w true
  count := s.count + 1

def popFrontLocked (s : WaitCells ι) : Option ι × WaitCells ι :=
  match s.head with
  | none => (none, s)
  | some w =>
      (some w,
        { head := s.next w
          tail := if s.next w = none then none else s.tail
          prev := Function.update (setAt s.prev (s.next w) none) w none
          next := Function.update s.next w none
          inList := Function.update s.inList w false
          count := s.count - 1 })

def removeLocked (s : WaitCells ι) (w : ι) : Bool × WaitCells ι :=
  if s.inList w then
    (true,
      { head := if s.prev w = none then s.next w else s.head
        tail := if s.next w = none then s.prev w else s.tail
        next := Function.update (setAt s.next (s.prev w) (s.next w)) w none
        prev := Function.update (setAt s.prev (s.next w) (s.prev w)) w none
        inList := Function.update s.inList w false
        count := s.count - 1 })
  else (false, s)

end WaitCells

inductive ListCall (ι : Type) where
  | pushLocked (w : ι)
  | popFrontLocked
  | removeLocked (w : ι)

inductive ListAnswer (ι : Type) where
  | pushed
  | popped (w : Option ι)
  | removed (b : Bool)
  deriving DecidableEq, Repr

namespace ListCall

def Allowed (s : WaitCells ι) : ListCall ι → Prop
  | pushLocked w => s.inList w = false
  | popFrontLocked => True
  | removeLocked _ => True

def exec (s : WaitCells ι) : ListCall ι → ListAnswer ι × WaitCells ι
  | pushLocked w => (.pushed, s.pushLocked w)
  | popFrontLocked => (.popped s.popFrontLocked.1, s.popFrontLocked.2)
  | removeLocked w => (.removed (s.removeLocked w).1, (s.removeLocked w).2)

def apply (l : WaitList ι) : ListCall ι → ListAnswer ι × WaitList ι
  | pushLocked w => (.pushed, l.pushLocked w)
  | popFrontLocked => (.popped l.popFrontLocked.1, l.popFrontLocked.2)
  | removeLocked w => (.removed (l.removeLocked w).1, (l.removeLocked w).2)

end ListCall

inductive ListRuns : WaitCells ι → WaitList ι → Prop where
  | new : ListRuns .new []
  | call {s : WaitCells ι} {l : WaitList ι} (hs : ListRuns s l) (c : ListCall ι)
      (allowed : c.Allowed s) : ListRuns (c.exec s).2 (c.apply l).2

section Facts

variable {s : WaitCells ι} {l : WaitList ι} {w : ι}

theorem Linked.push (h : Linked s l) (hw : s.inList w = false) :
    Linked (s.pushLocked w) (l.pushLocked w) := by
  have hnot : w ∉ l := fun hmem => by
    rw [(h.inList w).mpr hmem] at hw
    exact Bool.noConfusion hw
  have hnot' : w ∉ l.reverse := fun hmem => hnot (List.mem_reverse.mp hmem)
  have hback := h.backwards.push hnot' (List.nodup_reverse.mpr h.nodup)
  have hreverse : (l ++ [w]).reverse = w :: l.reverse := List.reverse_concat
  have hforth := hback.reverse
  rw [← hreverse, List.reverse_reverse] at hforth
  have hhead : (l ++ [w]).head? = (s.pushLocked w).head := by
    change _ = if s.tail = none then some w else s.head
    by_cases hnil : l = []
    · rw [if_pos (h.tail_eq_none.mpr hnil), hnil]
      rfl
    · rw [if_neg (fun ht => hnil (h.tail_eq_none.mp ht)), h.forwards.head]
      exact List.head?_append_of_ne_nil l hnil
  rw [hhead] at hforth
  refine ⟨hforth, ?_, fun x => ?_, ?_, ?_⟩
  · change Row _ _ none (some w) (l ++ [w]).reverse
    rw [hreverse]
    exact hback
  · change Function.update s.inList w true x = true ↔ x ∈ l ++ [w]
    rw [List.mem_append, List.mem_singleton]
    by_cases hx : x = w
    · rw [hx, Function.update_self]
      exact ⟨fun _ => .inr rfl, fun _ => rfl⟩
    · rw [Function.update_of_ne hx, h.inList]
      exact ⟨.inl, fun hor => hor.resolve_right hx⟩
  · change s.count + 1 = BitVec.ofNat 32 (l ++ [w]).length
    rw [h.count, List.length_append, List.length_singleton, BitVec.ofNat_add]
    rfl
  · exact List.nodup_append.mpr ⟨h.nodup, List.nodup_singleton w, fun x hx y hy => by
      rw [List.mem_singleton.mp hy]
      exact fun heq => hnot (heq ▸ hx)⟩

theorem Linked.remove (h : Linked s l) (hw : w ∈ l) :
    Linked (s.removeLocked w).2 (l.erase w) := by
  have hin : s.inList w = true := (h.inList w).mpr hw
  have hw' : w ∈ l.reverse := List.mem_reverse.mpr hw
  have hforth := h.forwards.remove hw h.nodup nofun
  have hback := h.backwards.remove hw' (List.nodup_reverse.mpr h.nodup) nofun
  have hreverse : (l.erase w).reverse = l.reverse.erase w := by
    rw [h.nodup.erase_eq_filter, (List.nodup_reverse.mpr h.nodup).erase_eq_filter,
      List.filter_reverse]
  unfold WaitCells.removeLocked
  rw [if_pos hin]
  refine ⟨?_, ?_, fun x => ?_, ?_, h.nodup.erase w⟩
  · change Row _ _ none (if s.prev w = none then s.next w else s.head) _
    rw [if_congr (Row.prev_eq_none h.forwards hw) rfl rfl]
    exact hforth
  · change Row _ _ none (if s.next w = none then s.prev w else s.tail) _
    rw [if_congr (Row.prev_eq_none h.backwards hw') rfl rfl, hreverse]
    exact hback
  · change Function.update s.inList w false x = true ↔ x ∈ l.erase w
    rw [h.nodup.mem_erase_iff]
    by_cases hx : x = w
    · rw [hx, Function.update_self]
      exact ⟨nofun, fun hne => absurd rfl hne.1⟩
    · rw [Function.update_of_ne hx, h.inList]
      exact ⟨fun hmem => ⟨hx, hmem⟩, And.right⟩
  · change s.count - 1 = BitVec.ofNat 32 (l.erase w).length
    have hlen : l.length = (l.erase w).length + 1 := by
      rw [List.length_erase_of_mem hw]
      have hpos := List.length_pos_of_mem hw
      omega
    rw [h.count, hlen, BitVec.ofNat_add]
    exact BitVec.add_sub_cancel _ _

theorem Linked.removeLocked (h : Linked s l) (w : ι) :
    (s.removeLocked w).1 = (l.removeLocked w).1 ∧
      Linked (s.removeLocked w).2 (l.removeLocked w).2 := by
  by_cases hw : w ∈ l
  · refine ⟨?_, h.remove hw⟩
    unfold WaitCells.removeLocked
    rw [if_pos ((h.inList w).mpr hw)]
    exact (decide_eq_true hw).symm
  · have hout : ¬ s.inList w = true := fun hin => hw ((h.inList w).mp hin)
    have hsame : l.erase w = l := List.erase_of_not_mem hw
    unfold WaitCells.removeLocked WaitList.removeLocked
    rw [if_neg hout, hsame]
    exact ⟨(decide_eq_false hw).symm, h⟩

/-- A pop takes the head out as `remove_locked` does. -/
theorem WaitCells.popFrontLocked_some (hhead : s.head = some w) (hprev : s.prev w = none)
    (hin : s.inList w = true) : s.popFrontLocked = (some w, (s.removeLocked w).2) := by
  unfold WaitCells.popFrontLocked WaitCells.removeLocked
  rw [hhead, if_pos hin]
  dsimp only
  rw [hprev, if_pos rfl]
  rfl

theorem Linked.popFrontLocked (h : Linked s l) :
    s.popFrontLocked.1 = l.popFrontLocked.1 ∧
      Linked s.popFrontLocked.2 l.popFrontLocked.2 := by
  cases l with
  | nil =>
      have hhead : s.head = none := h.forwards
      unfold WaitCells.popFrontLocked
      rw [hhead]
      exact ⟨rfl, h⟩
  | cons w l =>
      obtain ⟨hhead, hprev, -⟩ := h.forwards
      have hmem : w ∈ w :: l := List.mem_cons_self
      have hremove := h.remove hmem
      rw [List.erase_cons_head] at hremove
      rw [WaitCells.popFrontLocked_some hhead hprev ((h.inList w).mpr hmem)]
      exact ⟨rfl, hremove⟩

theorem Linked.exec (h : Linked s l) (c : ListCall ι) (allowed : c.Allowed s) :
    (c.exec s).1 = (c.apply l).1 ∧ Linked (c.exec s).2 (c.apply l).2 := by
  cases c with
  | pushLocked w => exact ⟨rfl, h.push allowed⟩
  | popFrontLocked =>
      obtain ⟨hanswer, hlinked⟩ := h.popFrontLocked
      exact ⟨congrArg ListAnswer.popped hanswer, hlinked⟩
  | removeLocked w =>
      obtain ⟨hanswer, hlinked⟩ := h.removeLocked w
      exact ⟨congrArg ListAnswer.removed hanswer, hlinked⟩

theorem linked_of_runs (h : ListRuns s l) : Linked s l := by
  induction h with
  | new => exact linked_new
  | call _ c allowed ih => exact (ih.exec c allowed).2

/-- In every sequence of calls the links are the list of the waiters, read from either end,
`in_list` says who is on it, `count_` is its length as a word, and every call answers what the
list does. -/
theorem links_are_list (h : ListRuns s l) :
    Row s.next s.prev none s.head l ∧ Row s.prev s.next none s.tail l.reverse ∧
      (∀ w, s.inList w = true ↔ w ∈ l) ∧ l.Nodup ∧ s.count.toNat = l.length % 2 ^ 32 ∧
      ∀ c : ListCall ι, c.Allowed s → (c.exec s).1 = (c.apply l).1 := by
  have hlinked := linked_of_runs h
  refine ⟨hlinked.forwards, hlinked.backwards, hlinked.inList, hlinked.nodup, ?_,
    fun c allowed => (hlinked.exec c allowed).1⟩
  rw [hlinked.count, BitVec.toNat_ofNat]

end Facts

/-- Two nodes come, and the first of them is taken out. -/
theorem links_are_list_two :
    ((((WaitCells.new : WaitCells Nat).pushLocked 0).pushLocked 1).removeLocked
      0).2.popFrontLocked.1 = some 1 := by
  have h₁ : ListRuns ((WaitCells.new : WaitCells Nat).pushLocked 0) [0] :=
    .call .new (.pushLocked 0) rfl
  have h₂ : ListRuns (((WaitCells.new : WaitCells Nat).pushLocked 0).pushLocked 1) [0, 1] :=
    .call h₁ (.pushLocked 1) rfl
  have h₃ : ListRuns ((((WaitCells.new : WaitCells Nat).pushLocked 0).pushLocked 1).removeLocked
      0).2 [1] := .call h₂ (.removeLocked 0) trivial
  exact ListAnswer.popped.inj ((links_are_list h₃).2.2.2.2.2 .popFrontLocked trivial)

theorem runs_range (n : Nat) : ∃ s, ListRuns s (List.range n) := by
  induction n with
  | zero => exact ⟨_, .new⟩
  | succ n ih =>
      obtain ⟨s, hs⟩ := ih
      have hout : s.inList n = false := by
        by_contra hin
        have hmem := ((linked_of_runs hs).inList n).mp (eq_true_of_ne_false hin)
        exact Nat.lt_irrefl n (List.mem_range.mp hmem)
      have hnext := ListRuns.call hs (.pushLocked n) hout
      rw [show (ListCall.apply (List.range n) (.pushLocked n)).2 = List.range (n + 1) from
        List.range_succ.symm] at hnext
      exact ⟨_, hnext⟩

/-- The counter comes back to zero on a list that is not empty. -/
theorem count_wraps :
    ¬ ∀ (s : WaitCells Nat) (l : WaitList Nat), ListRuns s l → s.count.toNat = l.length := by
  intro hcount
  obtain ⟨s, hs⟩ := runs_range (2 ^ 32)
  have hlen := hcount s _ hs
  have hlt := s.count.isLt
  rw [List.length_range] at hlen
  exact Nat.ne_of_lt hlt hlen

end Uvent.Sync
