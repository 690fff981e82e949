import Mathlib.Algebra.BigOperators.Group.Finset.Piecewise
import Mathlib.Algebra.Order.BigOperators.Group.Finset

/-!
# Waiting lines and what is owed to them

Parties wait in a line for things that become available.  A party that makes one
available wakes one of the line; the one that was woken comes back for it.  Nobody is
left waiting as long as everything available is owed: by a party that has not woken yet,
or by one that was woken and has not come back.

A node of the line is checked when its party has found nothing available behind joining
the line, and it is live when waking it counts.
-/

namespace Uvent.Lib

open Finset

variable {ι T N : Type}

def Owed (loose : ι → Prop) (owes : T → Nat) : Prop :=
  ∃ (items : Finset ι) (parties : Finset T),
    (∀ x, loose x → x ∈ items) ∧ items.card ≤ ∑ t ∈ parties, owes t

namespace Owed

variable {loose loose' : ι → Prop} {owes owes' : T → Nat}

theorem of_none (h : ∀ x, ¬ loose x) : Owed loose owes :=
  ⟨∅, ∅, fun x hx => absurd hx (h x), by simp⟩

theorem mono (h : Owed loose owes) (hloose : ∀ x, loose' x → loose x)
    (howes : ∀ t, owes t ≤ owes' t) : Owed loose' owes' := by
  obtain ⟨items, parties, hitems, hcard⟩ := h
  exact ⟨items, parties, fun x hx => hitems x (hloose x hx),
    hcard.trans (sum_le_sum fun t _ => howes t)⟩

theorem none_of_zero (h : Owed loose owes) (hzero : ∀ t, owes t = 0) (x : ι) : ¬ loose x := by
  obtain ⟨items, parties, hitems, hcard⟩ := h
  intro hx
  have hsum : ∑ t ∈ parties, owes t = 0 := sum_eq_zero fun t _ => hzero t
  have hpos : 0 < items.card := card_pos.mpr ⟨x, hitems x hx⟩
  omega

variable [DecidableEq T]

theorem sum_single {parties : Finset T} {t : T} (ht : t ∈ parties) :
    ∑ u ∈ parties, (if u = t then 1 else 0) = 1 := by
  rw [sum_ite_eq' parties t, if_pos ht]

theorem gain (h : Owed loose owes) [DecidableEq ι] (x : ι) (t : T)
    (hloose : ∀ y, loose' y → loose y ∨ y = x)
    (howes : ∀ u, owes u + (if u = t then 1 else 0) ≤ owes' u) : Owed loose' owes' := by
  obtain ⟨items, parties, hitems, hcard⟩ := h
  refine ⟨insert x items, insert t parties, fun y hy => ?_, ?_⟩
  · obtain hy | rfl := hloose y hy
    · exact mem_insert_of_mem (hitems y hy)
    · exact mem_insert_self y items
  · calc (insert x items).card
        ≤ items.card + 1 := card_insert_le x items
      _ ≤ ∑ u ∈ parties, owes u + 1 := Nat.add_le_add_right hcard 1
      _ ≤ ∑ u ∈ insert t parties, owes u + ∑ u ∈ insert t parties, (if u = t then 1 else 0) := by
          rw [sum_single (mem_insert_self t parties)]
          exact Nat.add_le_add_right (sum_le_sum_of_subset (subset_insert t parties)) 1
      _ = ∑ u ∈ insert t parties, (owes u + if u = t then 1 else 0) := sum_add_distrib.symm
      _ ≤ ∑ u ∈ insert t parties, owes' u := sum_le_sum fun u _ => howes u

theorem move (h : Owed loose owes) (t u : T) (hloose : ∀ x, loose' x → loose x)
    (howes : ∀ v, owes v + (if v = u then 1 else 0) ≤ owes' v + if v = t then 1 else 0) :
    Owed loose' owes' := by
  obtain ⟨items, parties, hitems, hcard⟩ := h
  refine ⟨items, insert t (insert u parties), fun x hx => hitems x (hloose x hx), ?_⟩
  have hsub : parties ⊆ insert t (insert u parties) :=
    (subset_insert u parties).trans (subset_insert t _)
  have hsum : ∑ v ∈ insert t (insert u parties), owes v + 1 ≤
      ∑ v ∈ insert t (insert u parties), owes' v + 1 := by
    have hle := sum_le_sum fun v (_ : v ∈ insert t (insert u parties)) => howes v
    rw [sum_add_distrib, sum_add_distrib, sum_single (mem_insert_self t _),
      sum_single (mem_insert_of_mem (mem_insert_self u parties))] at hle
    exact hle
  have hparties := sum_le_sum_of_subset (f := owes) hsub
  omega

theorem take (h : Owed loose owes) [DecidableEq ι] {x : ι} (hx : loose x) (t : T)
    (hloose : ∀ y, loose' y → loose y ∧ y ≠ x)
    (howes : ∀ u, owes u ≤ owes' u + if u = t then 1 else 0) : Owed loose' owes' := by
  obtain ⟨items, parties, hitems, hcard⟩ := h
  refine ⟨items.erase x, insert t parties, fun y hy => ?_, ?_⟩
  · exact mem_erase.mpr ⟨(hloose y hy).2, hitems y (hloose y hy).1⟩
  · have hle := sum_le_sum fun u (_ : u ∈ insert t parties) => howes u
    rw [sum_add_distrib, sum_single (mem_insert_self t parties)] at hle
    have hparties := sum_le_sum_of_subset (f := owes) (subset_insert t parties)
    rw [card_erase_of_mem (hitems x hx)]
    omega

end Owed

/-- A line with what is loose, what the parties owe it, and which of them may come back
for what is loose. -/
structure Ledger (ι T N : Type) where
  line : List N
  live : N → Prop
  checked : N → Prop
  loose : ι → Prop
  debt : T → Nat
  may : T → Prop

/-- The parties with `due` come back.  A live node of such a party has none behind it that
is checked: when it is woken again, nobody waits for what that wake was for. -/
structure Ledger.Balanced (party : N → T) (L : Ledger ι T N) (due : T → Bool) : Prop where
  may : ∀ t, due t = true → L.may t
  covered : (∃ n ∈ L.line, L.checked n) → Owed L.loose fun t => L.debt t + (due t).toNat
  behind : L.line.Pairwise fun a b => due (party a) = true → L.live a → ¬ L.checked b
  self : ∀ n ∈ L.line, due (party n) = true → ¬ L.checked n

def Ledger.Books (party : N → T) (L : Ledger ι T N) : Prop := ∃ due, L.Balanced party due

/-- Nodes leave the line, nodes that are not checked join it, and none becomes checked. -/
def Ledger.Fades (L L' : Ledger ι T N) : Prop :=
  ∃ kept joined, L'.line = kept ++ joined ∧ kept.Sublist L.line ∧
    (∀ n ∈ kept, L'.live n → L.live n) ∧ (∀ n ∈ kept, L'.checked n → L.checked n) ∧
    ∀ n ∈ joined, ¬ L'.checked n

/-- What may happen to what is loose and to what is owed: less is loose or more is owed;
something becomes loose and `t` owes more; `t` takes something; `t` owes more and `c` does
not come back; nothing is loose. -/
inductive Ledger.Trades [DecidableEq T] (L L' : Ledger ι T N) : Prop where
  | same (hloose : ∀ x, L'.loose x → L.loose x) (hdebt : ∀ u, L.debt u ≤ L'.debt u)
      (hmay : ∀ u, L.may u → L'.may u)
  | gain (x : ι) (t : T) (hloose : ∀ y, L'.loose y → L.loose y ∨ y = x)
      (hdebt : ∀ u, L.debt u + (if u = t then 1 else 0) ≤ L'.debt u)
      (hmay : ∀ u, L.may u → L'.may u)
  | take (x : ι) (t : T) (hx : L.loose x) (hloose : ∀ y, L'.loose y → L.loose y ∧ y ≠ x)
      (hdebt : ∀ u, L.debt u ≤ L'.debt u) (hmay : ∀ u, u ≠ t → L.may u → L'.may u)
  | meet (t c : T) (hloose : ∀ x, L'.loose x → L.loose x)
      (hdebt : ∀ u, L.debt u + (if u = t then 1 else 0) ≤ L'.debt u)
      (hmay : ∀ u, u ≠ c → L.may u → L'.may u)
  | nothing (hloose : ∀ x, ¬ L'.loose x)

namespace Ledger

variable {party : N → T} {L L' : Ledger ι T N}

theorem Books.of_nothing (h : ∀ x, ¬ L.loose x) : L.Books party := by
  refine ⟨fun _ => false, nofun, fun _ => .of_none h, ?_, fun _ _ => nofun⟩
  exact List.pairwise_of_forall fun _ _ => nofun

theorem Books.of_unchecked (h : ∀ n ∈ L.line, ¬ L.checked n) : L.Books party := by
  refine ⟨fun _ => false, nofun, fun ⟨n, hn, hchecked⟩ => absurd hchecked (h n hn), ?_,
    fun _ _ => nofun⟩
  exact List.pairwise_of_forall fun _ _ => nofun

/-- Nobody owes anything: nothing is loose, or nobody waits. -/
theorem Books.nothing (h : L.Books party) (hdebt : ∀ t, L.debt t = 0) (hmay : ∀ t, ¬ L.may t)
    {n : N} (hn : n ∈ L.line) (hchecked : L.checked n) (x : ι) : ¬ L.loose x := by
  obtain ⟨due, h⟩ := h
  refine (h.covered ⟨n, hn, hchecked⟩).none_of_zero (fun t => ?_) x
  have hdue : due t = false := by
    by_contra hdue
    exact hmay t (h.may t (by simpa using hdue))
  simp [hdebt t, hdue]

/-- The line fades, and the parties `due'` were due before. -/
theorem Balanced.fade {due due' : T → Bool} (h : L.Balanced party due) (hfades : L.Fades L')
    (hdue : ∀ t, due' t = true → due t = true) (hmay : ∀ t, due' t = true → L'.may t)
    (howed : (Owed L.loose fun t => L.debt t + (due t).toNat) →
      Owed L'.loose fun t => L'.debt t + (due' t).toNat) : L'.Balanced party due' := by
  obtain ⟨kept, joined, hline, hsub, hlive, hchecked, hjoined⟩ := hfades
  refine ⟨hmay, fun ⟨n, hn, hn'⟩ => ?_, ?_, fun n hn hn' => ?_⟩
  · rw [hline] at hn
    obtain hkept | hnew := List.mem_append.mp hn
    · exact howed (h.covered ⟨n, hsub.subset hkept, hchecked n hkept hn'⟩)
    · exact absurd hn' (hjoined n hnew)
  · rw [hline, List.pairwise_append]
    refine ⟨?_, ?_, fun a _ b hb _ _ => hjoined b hb⟩
    · refine (h.behind.sublist hsub).imp_of_mem fun {a b} ha hb hab hdue' hlive' hb' => ?_
      exact hab (hdue _ hdue') (hlive a ha hlive') (hchecked b hb hb')
    · exact List.pairwise_of_forall_mem_list fun _ _ b hb _ _ => hjoined b hb
  · rw [hline] at hn
    obtain hkept | hnew := List.mem_append.mp hn
    · exact fun hn'' => h.self n (hsub.subset hkept) (hdue _ hn') (hchecked n hkept hn'')
    · exact hjoined n hnew

theorem Fades.of_eq (hline : L'.line = L.line) (hlive : ∀ n ∈ L.line, L'.live n → L.live n)
    (hchecked : ∀ n ∈ L.line, L'.checked n → L.checked n) : L.Fades L' := by
  refine ⟨L.line, [], ?_, List.Sublist.refl _, hlive, hchecked, by simp⟩
  rw [List.append_nil, hline]

variable [DecidableEq T]

theorem update_true {due : T → Bool} {t u : T} (h : Function.update due t false u = true) :
    u ≠ t ∧ due u = true := by
  by_cases hu : u = t
  · subst hu
    simp at h
  · exact ⟨hu, by simpa [hu] using h⟩

theorem toNat_update (due : T → Bool) (t u : T) :
    (due u).toNat ≤ (Function.update due t false u).toNat + if u = t then 1 else 0 := by
  by_cases hu : u = t
  · simp [hu, Bool.toNat_le]
  · simp [hu]

theorem Books.step [DecidableEq ι] (h : L.Books party) (hfades : L.Fades L')
    (htrades : L.Trades L') : L'.Books party := by
  obtain ⟨due, h⟩ := h
  cases htrades with
  | same hloose hdebt hmay =>
      refine ⟨due, h.fade hfades (fun _ hu => hu) (fun u hu => hmay u (h.may u hu)) fun howed => ?_⟩
      exact howed.mono hloose fun u => Nat.add_le_add_right (hdebt u) _
  | gain x t hloose hdebt hmay =>
      refine ⟨due, h.fade hfades (fun _ hu => hu) (fun u hu => hmay u (h.may u hu)) fun howed => ?_⟩
      refine howed.gain x t hloose fun u => ?_
      have := hdebt u
      omega
  | take x t hx hloose hdebt hmay =>
      refine ⟨Function.update due t false, h.fade hfades (fun u hu => (update_true hu).2)
        (fun u hu => hmay u (update_true hu).1 (h.may u (update_true hu).2)) fun howed => ?_⟩
      refine howed.take hx t hloose fun u => ?_
      have := hdebt u
      have := toNat_update due t u
      omega
  | meet t c hloose hdebt hmay =>
      refine ⟨Function.update due c false, h.fade hfades (fun u hu => (update_true hu).2)
        (fun u hu => hmay u (update_true hu).1 (h.may u (update_true hu).2)) fun howed => ?_⟩
      refine howed.move c t hloose fun u => ?_
      have := hdebt u
      have := toNat_update due c u
      omega
  | nothing hloose => exact .of_nothing hloose

theorem Books.fire {n : N} (h : L.Books party) (t : T) (hline : L.line = n :: L'.line)
    (hn : L.live n) (hlive : ∀ m ∈ L'.line, L'.live m → L.live m ∧ party m ≠ party n)
    (hchecked : ∀ m ∈ L'.line, L'.checked m → L.checked m ∧ party m ≠ party n)
    (hloose : ∀ x, L'.loose x → L.loose x)
    (hdebt : ∀ u, L.debt u ≤ L'.debt u + if u = t then 1 else 0)
    (hmay : ∀ u, L.may u ∨ u = party n → L'.may u) : L'.Books party := by
  obtain ⟨due, h⟩ := h
  have hbehind := h.behind
  rw [hline, List.pairwise_cons] at hbehind
  by_cases hdue : due (party n) = true
  · -- it was on its way already, so nobody behind it waits
    refine .of_unchecked fun m hm hm' => ?_
    exact hbehind.1 m hm hdue hn (hchecked m hm hm').1
  · have hother : ∀ u, u ≠ party n → Function.update due (party n) true u = due u :=
      fun u hu => Function.update_of_ne hu ..
    refine ⟨Function.update due (party n) true, fun u hu => ?_, fun ⟨m, hm, hm'⟩ => ?_, ?_, ?_⟩
    · by_cases hu' : u = party n
      · exact hmay u (.inr hu')
      · rw [hother u hu'] at hu
        exact hmay u (.inl (h.may u hu))
    · have hmem : m ∈ L.line := by
        rw [hline]
        exact List.mem_cons_of_mem n hm
      refine (h.covered ⟨m, hmem, (hchecked m hm hm').1⟩).move t (party n) hloose fun u => ?_
      have hu := hdebt u
      by_cases hu' : u = party n
      · subst hu'
        simp only [Function.update_self, if_true, Bool.not_eq_true] at hdue ⊢
        simp only [hdue, Bool.toNat_false, Bool.toNat_true]
        omega
      · rw [hother u hu', if_neg hu']
        omega
    · refine hbehind.2.imp_of_mem fun {a b} ha hb hab hdue' hlive' hb' => ?_
      obtain ⟨hlive', hne⟩ := hlive a ha hlive'
      rw [hother _ hne] at hdue'
      exact hab hdue' hlive' (hchecked b hb hb').1
    · intro m hm hdue' hm'
      obtain ⟨hm', hne⟩ := hchecked m hm hm'
      rw [hother _ hne] at hdue'
      refine h.self m ?_ hdue' hm'
      rw [hline]
      exact List.mem_cons_of_mem n hm

end Ledger

end Uvent.Lib
