import Mathlib.Data.List.Basic

/-!
# Neighbours in a list

The elements of a list that stand directly behind one another, when the list
grows at its end and loses its first element, as a linked queue does.
-/

namespace Uvent.Lib

variable {α : Type} {l : List α} {a b c x y : α}

def Adj : List α → α → α → Prop
  | [], _, _ => False
  | [_], _, _ => False
  | x :: y :: l, a, b => (a = x ∧ b = y) ∨ Adj (y :: l) a b

theorem adj_cons_cons : Adj (x :: y :: l) a b ↔ (a = x ∧ b = y) ∨ Adj (y :: l) a b := Iff.rfl

theorem Adj.cons (h : Adj l a b) (x : α) : Adj (x :: l) a b := by
  cases l with
  | nil => exact h.elim
  | cons y l => exact .inr h

theorem adj_append_cons_cons (l r : List α) (a b : α) : Adj (l ++ a :: b :: r) a b := by
  induction l with
  | nil => exact .inl ⟨rfl, rfl⟩
  | cons x l ih => exact ih.cons x

theorem Adj.mem (h : Adj l a b) : a ∈ l ∧ b ∈ l := by
  induction l with
  | nil => exact h.elim
  | cons x l ih =>
      cases l with
      | nil => exact h.elim
      | cons y l =>
          rcases h with ⟨rfl, rfl⟩ | h
          · simp
          · exact ⟨List.mem_cons_of_mem _ (ih h).1, List.mem_cons_of_mem _ (ih h).2⟩

theorem Adj.tail (h : Adj (x :: l) a b) (ha : a ≠ x) : Adj l a b := by
  cases l with
  | nil => exact h.elim
  | cons y l => exact h.resolve_left fun hx => ha hx.1

theorem Adj.head (h : Adj (x :: l) x b) (hnodup : (x :: l).Nodup) : l.head? = some b := by
  cases l with
  | nil => exact h.elim
  | cons y l =>
      rcases h with ⟨-, rfl⟩ | h
      · rfl
      · exact absurd h.mem.1 (List.nodup_cons.mp hnodup).1

theorem adj_append_singleton :
    Adj (l ++ [x]) a b ↔ Adj l a b ∨ l.getLast? = some a ∧ b = x := by
  induction l with
  | nil => simp [Adj]
  | cons z l ih =>
      cases l with
      | nil => simp [Adj, eq_comm]
      | cons y l =>
          rw [List.cons_append, List.cons_append, adj_cons_cons, ← List.cons_append, ih,
            adj_cons_cons, List.getLast?_cons_cons, or_assoc]

theorem Adj.append (h : Adj l a b) (x : α) : Adj (l ++ [x]) a b := adj_append_singleton.mpr (.inl h)

theorem Adj.next_unique (h : Adj l a b) (h' : Adj l a c) (hnodup : l.Nodup) : b = c := by
  induction l with
  | nil => exact h.elim
  | cons x l ih =>
      by_cases ha : a = x
      · subst ha
        exact Option.some.inj ((h.head hnodup).symm.trans (h'.head hnodup))
      · exact ih (h.tail ha) (h'.tail ha) (List.nodup_cons.mp hnodup).2

theorem Adj.not_last (h : Adj l a b) (hnodup : l.Nodup) : l.getLast? ≠ some a := by
  induction l with
  | nil => exact h.elim
  | cons x l ih =>
      cases l with
      | nil => exact h.elim
      | cons y l =>
          have hrest := (List.nodup_cons.mp hnodup).2
          rw [List.getLast?_cons_cons]
          rcases h with ⟨rfl, rfl⟩ | h
          · intro hlast
            exact (List.nodup_cons.mp hnodup).1 (List.mem_of_getLast? hlast)
          · exact ih h hrest

end Uvent.Lib
