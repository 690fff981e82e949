import Mathlib.Data.List.Nodup
import Mathlib.Logic.Function.Basic

/-!
# Doubly linked lists

Cells that know the one behind them and the one before them.  Several lists may share the
two maps, each with a first cell of its own.
-/

namespace Uvent.Lib

variable {ι : Type} {next prev next' prev' : ι → Option ι} {before cur : Option ι} {x y : ι}
  {l : List ι}

/-- The cells from `cur` on are those of the list, and the first of them stands behind
`before`. -/
def Row (next prev : ι → Option ι) : Option ι → Option ι → List ι → Prop
  | _, cur, [] => cur = none
  | before, cur, x :: l => cur = some x ∧ prev x = before ∧ Row next prev (some x) (next x) l

theorem Row.head (h : Row next prev before cur l) : cur = l.head? := by
  cases l with
  | nil => exact h
  | cons x l => exact h.1

theorem Row.congr (h : Row next prev before cur l)
    (hsame : ∀ x ∈ l, next' x = next x ∧ prev' x = prev x) : Row next' prev' before cur l := by
  induction l generalizing before cur with
  | nil => exact h
  | cons x l ih =>
      obtain ⟨hcur, hprev, hrest⟩ := h
      obtain ⟨hnext, hprev'⟩ := hsame x List.mem_cons_self
      refine ⟨hcur, hprev'.trans hprev, ?_⟩
      rw [hnext]
      exact ih hrest fun y hy => hsame y (List.mem_cons_of_mem x hy)

theorem Row.next_eq {pre post : List ι} (h : Row next prev before cur (pre ++ x :: post)) :
    next x = post.head? := by
  induction pre generalizing before cur with
  | nil => exact h.2.2.head
  | cons y pre ih => exact ih h.2.2

/-- The cell before `x` is the first one's, or one of the list. -/
theorem Row.prev_cases (h : Row next prev before cur l) (hx : x ∈ l) :
    (cur = some x ∧ prev x = before) ∨ ∃ y ∈ l, prev x = some y := by
  induction l generalizing before cur with
  | nil => cases hx
  | cons y l ih =>
      obtain ⟨hcur, hprev, hrest⟩ := h
      rcases List.mem_cons.mp hx with rfl | hin
      · exact .inl ⟨hcur, hprev⟩
      · rcases ih hrest hin with ⟨-, hy⟩ | ⟨z, hz, hxz⟩
        · exact .inr ⟨y, List.mem_cons_self, hy⟩
        · exact .inr ⟨z, List.mem_cons_of_mem y hz, hxz⟩

theorem Row.prev_eq_none (h : Row next prev none cur l) (hx : x ∈ l) :
    prev x = none ↔ cur = some x := by
  constructor
  · intro hnone
    rcases h.prev_cases hx with ⟨hcur, -⟩ | ⟨y, -, hy⟩
    · exact hcur
    · rw [hy] at hnone
      exact nomatch hnone
  · intro hcur
    cases l with
    | nil => cases hx
    | cons y l =>
        obtain ⟨hcur', hprev, -⟩ := h
        obtain rfl := Option.some.inj (hcur.symm.trans hcur')
        exact hprev

theorem Row.next_mem (h : Row next prev before cur l) (hx : x ∈ l) (hy : next x = some y) :
    y ∈ l := by
  obtain ⟨pre, post, rfl⟩ := List.append_of_mem hx
  have hhead : some y = post.head? := hy.symm.trans h.next_eq
  have hpost : y ∈ post := List.mem_of_mem_head? hhead.symm
  exact List.mem_append_right pre (List.mem_cons_of_mem x hpost)

theorem Row.next_ne (h : Row next prev before cur (x :: l)) (hnodup : (x :: l).Nodup)
    (hy : y ∈ x :: l) : next y ≠ some x := by
  intro hback
  obtain ⟨pre, post, heq⟩ := List.append_of_mem hy
  rw [heq] at h hnodup
  have hhead : some x = post.head? := hback.symm.trans h.next_eq
  have hpost : x ∈ post := List.mem_of_mem_head? hhead.symm
  cases pre with
  | nil =>
      obtain ⟨rfl, -⟩ := List.cons.inj heq
      exact (List.nodup_cons.mp hnodup).1 hpost
  | cons z pre =>
      obtain ⟨rfl, -⟩ := List.cons.inj heq
      refine (List.nodup_cons.mp hnodup).1 (List.mem_append_right pre ?_)
      exact List.mem_cons_of_mem y hpost

/-- What is behind the cells of the list and what is before them, read from the other end. -/
theorem Row.reverse_append (acc : List ι) (h : Row next prev before cur l)
    (hacc : Row prev next cur before acc) :
    Row prev next none (l.reverse ++ acc).head? (l.reverse ++ acc) := by
  induction l generalizing before cur acc with
  | nil =>
      obtain rfl : cur = none := h
      rw [List.reverse_nil, List.nil_append, ← hacc.head]
      exact hacc
  | cons x l ih =>
      obtain ⟨rfl, hprev, hrest⟩ := h
      rw [List.reverse_cons, List.append_assoc]
      refine ih (x :: acc) hrest ⟨rfl, rfl, ?_⟩
      rw [hprev]
      exact hacc

theorem Row.reverse (h : Row next prev none cur l) :
    Row prev next none l.reverse.head? l.reverse := by
  have hrow := h.reverse_append [] rfl
  rw [List.append_nil] at hrow
  exact hrow

section Surgery

variable [DecidableEq ι]

/-- `f x := v`, if there is an `x`. -/
def setAt (f : ι → Option ι) (x : Option ι) (v : Option ι) : ι → Option ι :=
  match x with
  | none => f
  | some x => Function.update f x v

@[simp] theorem setAt_of_ne (f : ι → Option ι) {x : Option ι} {v : Option ι}
    (hy : x ≠ some y) : setAt f x v y = f y := by
  cases x with
  | none => rfl
  | some x => exact Function.update_of_ne (fun heq => hy (congrArg some heq.symm)) ..

@[simp] theorem setAt_some (f : ι → Option ι) (x : ι) (v : Option ι) : setAt f (some x) v x = v :=
  Function.update_self ..

theorem Row.push (h : Row next prev none cur l) (hx : x ∉ l) (hnodup : l.Nodup) :
    Row (Function.update next x cur) (setAt (Function.update prev x none) cur (some x)) none
      (some x) (x :: l) := by
  have hcur := h.head
  have hne : cur ≠ some x := by
    intro heq
    exact hx (List.mem_of_mem_head? (hcur.symm.trans heq))
  refine ⟨rfl, ?_, ?_⟩
  · rw [setAt_of_ne _ hne]
    exact Function.update_self ..
  · rw [Function.update_self]
    cases l with
    | nil => exact h
    | cons y l =>
        obtain ⟨rfl, -, hrest⟩ := h
        have hyx : y ≠ x := fun heq => hx (heq ▸ List.mem_cons_self)
        refine ⟨rfl, setAt_some .., ?_⟩
        rw [Function.update_of_ne hyx]
        refine hrest.congr fun z hz => ?_
        have hzx : z ≠ x := fun heq => hx (heq ▸ List.mem_cons_of_mem y hz)
        have hzy : some y ≠ some z := by
          intro heq
          obtain rfl := Option.some.inj heq
          exact (List.nodup_cons.mp hnodup).1 hz
        exact ⟨Function.update_of_ne hzx .., (setAt_of_ne _ hzy).trans (Function.update_of_ne hzx ..)⟩

theorem Row.remove (h : Row next prev before cur l) (hx : x ∈ l) (hnodup : l.Nodup)
    (hout : ∀ b, before = some b → b ∉ l) :
    Row (Function.update (setAt next (prev x) (next x)) x none)
      (Function.update (setAt prev (next x) (prev x)) x none) before
      (if cur = some x then next x else cur) (l.erase x) := by
  induction l generalizing before cur with
  | nil => cases hx
  | cons y l ih =>
      have hrow := h
      obtain ⟨rfl, hprev, hrest⟩ := h
      obtain ⟨hyl, hl⟩ := List.nodup_cons.mp hnodup
      by_cases hyx : y = x
      · subst hyx
        rw [if_pos rfl, List.erase_cons_head]
        cases l with
        | nil => exact hrest
        | cons z l =>
            obtain ⟨hz, -, hbehind⟩ := hrest
            have hout' : ∀ w ∈ z :: l, prev y ≠ some w := by
              intro w hw heq
              exact hout w (hprev.symm.trans heq) (List.mem_cons_of_mem y hw)
            have hne : ∀ w ∈ z :: l, w ≠ y := by
              rintro w hw rfl
              exact hyl hw
            refine ⟨hz, ?_, ?_⟩
            · rw [Function.update_of_ne (hne z List.mem_cons_self), hz, setAt_some]
              exact hprev
            · rw [Function.update_of_ne (hne z List.mem_cons_self),
                setAt_of_ne _ (hout' z List.mem_cons_self)]
              refine hbehind.congr fun w hw => ?_
              have hin : w ∈ z :: l := List.mem_cons_of_mem z hw
              have hzw : next y ≠ some w := by
                intro heq
                obtain rfl := Option.some.inj (hz.symm.trans heq)
                exact (List.nodup_cons.mp hl).1 hw
              rw [Function.update_of_ne (hne w hin), Function.update_of_ne (hne w hin),
                setAt_of_ne _ (hout' w hin), setAt_of_ne _ hzw]
              exact ⟨rfl, rfl⟩
      · have hin : x ∈ l := (List.mem_cons.mp hx).resolve_left (fun heq => hyx heq.symm)
        have hxy : some y ≠ some x := fun heq => hyx (Option.some.inj heq)
        rw [if_neg hxy, List.erase_cons_tail (by simpa using hyx)]
        refine ⟨rfl, ?_, ?_⟩
        · rw [Function.update_of_ne hyx, setAt_of_ne _ (hrow.next_ne hnodup hx)]
          exact hprev
        · have hnew := ih hrest hin hl (by rintro b hb; obtain rfl := Option.some.inj hb; exact hyl)
          have hcur : Function.update (setAt next (prev x) (next x)) x none y =
              if next y = some x then next x else next y := by
            rw [Function.update_of_ne hyx]
            rcases hrest.prev_cases hin with ⟨hyx', hback⟩ | ⟨z, hz, hback⟩
            · rw [hback, setAt_some, if_pos hyx']
            · have hzy : some z ≠ some y := by
                intro heq
                exact hyl (Option.some.inj heq ▸ hz)
              have hnot : next y ≠ some x := by
                intro hyx'
                cases l with
                | nil => cases hin
                | cons w l =>
                    obtain ⟨hw, hback', -⟩ := hrest
                    obtain rfl := Option.some.inj (hw.symm.trans hyx')
                    exact hzy (hback.symm.trans hback')
              rw [hback, setAt_of_ne _ hzy, if_neg hnot]
          rw [hcur]
          exact hnew

end Surgery

end Uvent.Lib
