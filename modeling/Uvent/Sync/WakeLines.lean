import Uvent.Lib.WakeLedger
import Uvent.Sync.SuspensionShifts

/-!
# The wait lists as waiting lines

A wait list is a line of waiters: a node is live while its coroutine has no winner, and
checked once the check of its `attach` has found nothing.  A step inside a suspension lets
the line fade, and the loop of a waker hands on what it owes.
-/

namespace Uvent.Sync.Suspension

open Uvent.Lib

variable {Λ ι : Type}

/-- What the program has to say of a list: whether the check that a coroutine is at has found
nothing yet, what is loose, how many wakes a coroutine still owes, which coroutines were woken
before and are back to look, and what a coroutine suspends in. -/
structure Outside (Λ ι : Type) where
  now : Nat → Bool
  loose : ι → Prop
  debt : Nat → Nat
  owed : Nat → Prop
  wait : Nat → Option (Wait Λ)

def State.Woken (s : State Λ) (wait : Nat → Option (Wait Λ)) (l : Λ) (t : Nat) : Prop :=
  ∃ w k, wait t = some w ∧ (s.coros t).winner = .index k ∧ w.places[k]? = some (.listed l)

def State.ledger (s : State Λ) (l : Λ) (o : Outside Λ ι) : Ledger ι Nat Node where
  line := s.lists l
  live n := (s.coros n.coro).winner = .none
  checked n := (s.coros n.coro).winner = .none ∧
    (s.coros n.coro).phase.sees (o.now n.coro) n.index
  loose := o.loose
  debt := o.debt
  may t := o.owed t ∨ s.Woken o.wait l t

theorem Phase.Fits.place {p : Phase Λ} {w : Wait Λ} (h : p.Fits w) {j : Nat} {x : Place Λ}
    (hplace : p.place j = some x) : w.places[j]? = some x := by
  cases p with
  | running | check | readWinner | resumed => cases hplace
  | attach w' k | startTimer w' k | look w' k =>
    obtain rfl : w' = w := h
    simp only [Phase.place, Option.ite_none_right_eq_some] at hplace
    exact hplace.2
  | undo l =>
    obtain rfl : w = .op l := h
    simp only [Phase.place, Option.ite_none_right_eq_some] at hplace
    obtain ⟨rfl, hplace⟩ := hplace
    exact hplace
  | arm w' | withdraw w' | suspended w' =>
    obtain rfl : w' = w := h
    exact hplace
  | detach ops why k part =>
    obtain rfl : w = .select ops := h
    simp only [Phase.place, Option.ite_none_right_eq_some] at hplace
    exact hplace.2

section Steps

variable {s s' : State Λ} {t : Nat} {c' : Coro Λ} {l : Λ} {o o' : Outside Λ ι}

theorem Inv.place_of_mem (h : Inv s) {n : Node} (hn : n ∈ s.lists l) :
    (s.coros n.coro).phase.place n.index = some (.listed l) := by
  refine (h.coros n.coro).place n.index l ?_
  rw [State.Link, State.node, ← h.turns l n hn]
  exact hn

/-- A step changes one coroutine, which comes to nothing that it had not seen. -/
theorem Inv.fades (h : Inv s) (hcoros : s'.coros = Function.update s.coros t c')
    (hnow : ∀ u, u ≠ t → o'.now u = o.now u)
    (hown : ∀ j, (s.coros t).phase.place j = some (.listed l) → c'.winner = .none →
      (s.coros t).winner = .none ∧
        (c'.phase.sees (o'.now t) j → (s.coros t).phase.sees (o.now t) j))
    (hlists : ∃ kept joined, s'.lists l = kept ++ joined ∧ kept.Sublist (s.lists l) ∧
      ∀ n ∈ joined, n.coro = t ∧ ¬c'.phase.sees (o'.now t) n.index) :
    (s.ledger l o).Fades (s'.ledger l o') := by
  obtain ⟨kept, joined, heq, hsub, hjoined⟩ := hlists
  have hplace : ∀ n ∈ kept, (s.coros n.coro).phase.place n.index = some (.listed l) :=
    fun n hn => h.place_of_mem (hsub.subset hn)
  refine ⟨kept, joined, heq, hsub, ?_, ?_, ?_⟩
  · intro n hn hlive
    change (s'.coros n.coro).winner = .none at hlive
    change (s.coros n.coro).winner = .none
    rw [hcoros] at hlive
    by_cases ht : n.coro = t
    · subst ht
      rw [Function.update_self] at hlive
      exact (hown n.index (hplace n hn) hlive).1
    · rwa [Function.update_of_ne ht] at hlive
  · rintro n hn ⟨hlive, hsees⟩
    rw [hcoros] at hlive hsees
    by_cases ht : n.coro = t
    · subst ht
      rw [Function.update_self] at hlive hsees
      obtain ⟨hnone, hsaw⟩ := hown n.index (hplace n hn) hlive
      exact ⟨hnone, hsaw hsees⟩
    · rw [Function.update_of_ne ht] at hlive hsees
      rw [hnow _ ht] at hsees
      exact ⟨hlive, hsees⟩
  · rintro n hn ⟨-, hsees⟩
    obtain ⟨rfl, hnot⟩ := hjoined n hn
    rw [hcoros, Function.update_self] at hsees
    exact hnot hsees

theorem Inv.fades_set (h : Inv s) (hnow : ∀ u, u ≠ t → o'.now u = o.now u)
    (hown : ∀ j, (s.coros t).phase.place j = some (.listed l) → c'.winner = .none →
      (s.coros t).winner = .none ∧
        (c'.phase.sees (o'.now t) j → (s.coros t).phase.sees (o.now t) j)) :
    (s.ledger l o).Fades ((s.set t c').ledger l o') :=
  h.fades rfl hnow hown ⟨s.lists l, [], (List.append_nil _).symm, List.Sublist.refl _, nofun⟩

theorem Inv.fades_apart (h : Inv s) (hnow : ∀ u, u ≠ t → o'.now u = o.now u)
    (hplace : ∀ j, (s.coros t).phase.place j = none) :
    (s.ledger l o).Fades ((s.set t c').ledger l o') :=
  h.fades_set hnow fun j hj => absurd ((hplace j).symm.trans hj) nofun

theorem State.fades_outside (hnow : o'.now = o.now) : (s.ledger l o).Fades (s.ledger l o') := by
  refine .of_eq rfl (fun _ _ h => h) ?_
  intro n _ h
  rwa [State.ledger, hnow] at h

theorem Inv.fades_shifts (h : Inv s) (hshifts : s.Shifts s' t c')
    (hnow : (∀ w k, (s.coros t).phase ≠ .look w k) → o.now t = false) :
    (s.ledger l o).Fades (s'.ledger l o) := by
  have hwinner : c'.winner = .none → (s.coros t).winner = .none := by
    intro hnone
    obtain hsame | ⟨hold, -⟩ := hshifts.coro.winner
    · rw [← hsame, hnone]
    · exact hold
  obtain ⟨kept, joined, heq, hsub, hjoined⟩ := hshifts.lists l
  refine h.fades hshifts.coros (fun _ _ => rfl) (fun j hj hnone => ⟨hwinner hnone, ?_⟩)
    ⟨kept, joined, heq, hsub, fun n hn => ⟨(hjoined n hn).1, ?_⟩⟩
  · obtain ⟨hphase, -⟩ | hadvances := hshifts.coro.moves
    · rw [hphase]
      exact id
    · rw [hnow hadvances.look]
      exact hadvances.sees hnone j (hj ▸ Option.some_ne_none _)
  · obtain ⟨-, hadvances, w, hlook⟩ := hjoined n hn
    rw [hlook, hnow hadvances.look]
    rintro (hlt | ⟨hnow, -⟩)
    · exact Nat.lt_irrefl _ hlt
    · cases hnow

theorem State.Shifts.woken (hshifts : s.Shifts s' t c') {wait : Nat → Option (Wait Λ)} {u : Nat}
    (h : s.Woken wait l u) : s'.Woken wait l u := by
  obtain ⟨w, k, hwait, hwinner, hplace⟩ := h
  refine ⟨w, k, hwait, ?_, hplace⟩
  rw [hshifts.coros]
  by_cases hu : u = t
  · subst hu
    rw [Function.update_self]
    obtain hsame | ⟨hold, -⟩ := hshifts.coro.winner
    · rw [hsame, hwinner]
    · cases hold.symm.trans hwinner
  · rwa [Function.update_of_ne hu]

theorem Inv.books_shifts [DecidableEq ι] (h : Inv s) (hshifts : s.Shifts s' t c')
    (hnow : (∀ w k, (s.coros t).phase ≠ .look w k) → o.now t = false)
    (hbooks : (s.ledger l o).Books Node.coro) : (s'.ledger l o).Books Node.coro := by
  refine hbooks.step (h.fades_shifts hshifts hnow) (.same (fun _ => id) (fun _ => le_rfl) ?_)
  exact fun _ hmay => hmay.imp id hshifts.woken

/-! ### The loop of a waker -/

theorem State.fired_live {n : Node} {u : Nat} (h : ((s.fired n).coros u).winner = .none) :
    u ≠ n.coro ∧ (s.fired n).coros u = s.coros u := by
  have hne : u ≠ n.coro := by
    rintro rfl
    cases (s.fired_winner n).symm.trans h
  exact ⟨hne, Function.update_of_ne hne ..⟩

theorem State.fired_woken {n : Node} {u : Nat} {wait : Nat → Option (Wait Λ)}
    (hlive : (s.coros n.coro).winner = .none) (h : s.Woken wait l u) :
    (s.fired n).Woken wait l u := by
  obtain ⟨w, k, hwait, hwinner, hplace⟩ := h
  have hne : u ≠ n.coro := by
    rintro rfl
    cases hlive.symm.trans hwinner
  have hsame : (s.fired n).coros u = s.coros u := Function.update_of_ne hne ..
  exact ⟨w, k, hwait, by rw [hsame, hwinner], hplace⟩

variable [DecidableEq Λ]

def State.Seated (s : State Λ) (l : Λ) (wait : Nat → Option (Wait Λ)) : Prop :=
  ∀ n ∈ s.lists l, ∃ w, wait n.coro = some w ∧ w.places[n.index]? = some (.listed l)

def Outside.owing (o : Outside Λ ι) (t count : Nat) : Outside Λ ι :=
  { o with debt := fun u => o.debt u + if u = t then count else 0 }

/-- The front node is dropped. -/
theorem State.books_dead [DecidableEq ι] {n : Node} {nodes : List Node}
    (hlist : s.lists l = n :: nodes) (hbooks : (s.ledger l o).Books Node.coro) :
    ((s.setList l nodes).ledger l o).Books Node.coro := by
  refine hbooks.step ⟨nodes, [], ?_, ?_, fun _ _ => id, fun _ _ => id, nofun⟩
    (.same (fun _ => id) (fun _ => le_rfl) fun _ => id)
  · exact (s.setList_lists l nodes).trans (List.append_nil _).symm
  · change List.Sublist nodes (s.lists l)
    rw [hlist]
    exact List.sublist_cons_self n nodes

theorem State.books_live [DecidableEq ι] {n : Node} {nodes : List Node} {count : Nat}
    (hlist : s.lists l = n :: nodes) (hlive : (s.coros n.coro).winner = .none)
    (hseated : s.Seated l o.wait) (hbooks : (s.ledger l (o.owing t (count + 1))).Books Node.coro) :
    (((s.setList l nodes).fired n).ledger l (o.owing t count)).Books Node.coro := by
  refine hbooks.fire t ?_ hlive ?_ ?_ (fun _ => id) ?_ ?_
  · change s.lists l = n :: (s.setList l nodes).lists l
    rw [State.setList_lists, hlist]
  · intro m _ hm
    obtain ⟨hne, hsame⟩ := State.fired_live hm
    change (((s.setList l nodes).fired n).coros m.coro).winner = .none at hm
    rw [hsame] at hm
    exact ⟨hm, hne⟩
  · rintro m - ⟨hm, hsees⟩
    obtain ⟨hne, hsame⟩ := State.fired_live hm
    rw [hsame] at hm hsees
    exact ⟨⟨hm, hsees⟩, hne⟩
  · intro u
    change o.debt u + (if u = t then count + 1 else 0) ≤
      o.debt u + (if u = t then count else 0) + if u = t then 1 else 0
    split <;> omega
  · rintro u ((howed | hwoken) | rfl)
    · exact .inl howed
    · exact .inr (State.fired_woken (s := s.setList l nodes) hlive hwoken)
    · obtain ⟨w, hwait, hplace⟩ := hseated n (hlist ▸ List.mem_cons_self)
      exact .inr ⟨w, n.index, hwait, (s.setList l nodes).fired_winner n, hplace⟩

omit [DecidableEq Λ] in
theorem State.Seated.tail {n : Node} {nodes : List Node} {wait : Nat → Option (Wait Λ)}
    (hlist : s.lists l = n :: nodes) (h : s.Seated l wait) (hs' : s'.lists l = nodes) :
    s'.Seated l wait := by
  intro m hm
  rw [hs'] at hm
  refine h m ?_
  rw [hlist]
  exact List.mem_cons_of_mem n hm

/-- What coroutine `t` owes is handed on, or nobody waits any more. -/
theorem State.books_wakeLoop [DecidableEq ι] {fuel count : Nat} (hfuel : (s.lists l).length ≤ fuel)
    (hseated : s.Seated l o.wait) (hbooks : (s.ledger l (o.owing t count)).Books Node.coro) :
    ((State.wakeLoop l fuel count s).ledger l o).Books Node.coro := by
  have hempty : ∀ s' : State Λ, s'.lists l = [] → (s'.ledger l o).Books Node.coro := by
    intro s' hs'
    refine .of_unchecked fun n hn => ?_
    change n ∈ s'.lists l at hn
    rw [hs'] at hn
    cases hn
  induction fuel generalizing count s with
  | zero => exact hempty s (List.eq_nil_of_length_eq_zero (Nat.le_zero.mp hfuel))
  | succ fuel ih =>
    cases count with
    | zero =>
      have howing : o.owing t 0 = o := by
        rw [Outside.owing]
        simp only [ite_self, Nat.add_zero]
      rwa [howing] at hbooks
    | succ count =>
      rw [State.wakeLoop_succ]
      cases hlist : s.lists l with
      | nil =>
        rw [State.popFire_nil hlist]
        refine ih ?_ hseated hbooks
        rw [hlist]
        exact Nat.zero_le fuel
      | cons n nodes =>
        have hlen : nodes.length ≤ fuel := by
          rw [hlist, List.length_cons] at hfuel
          exact Nat.le_of_succ_le_succ hfuel
        have htail := s.setList_lists l nodes
        by_cases hlive : (s.coros n.coro).winner = .none
        · rw [State.popFire_live hlist hlive]
          refine ih ?_ (hseated.tail hlist htail) (State.books_live hlist hlive hseated hbooks)
          exact htail.symm ▸ hlen
        · rw [State.popFire_dead hlist hlive]
          refine ih ?_ (hseated.tail hlist htail) (State.books_dead hlist hbooks)
          exact htail.symm ▸ hlen

theorem State.books_popFire_of_ne [DecidableEq ι] {l' : Λ} (hl : l' ≠ l)
    (hbooks : (s.ledger l o).Books Node.coro) :
    ((s.popFire l').2.ledger l o).Books Node.coro := by
  cases hlist : s.lists l' with
  | nil =>
    rw [State.popFire_nil hlist]
    exact hbooks
  | cons n nodes =>
    have hlists : (s.setList l' nodes).lists l = s.lists l := Function.update_of_ne hl.symm ..
    by_cases hlive : (s.coros n.coro).winner = .none
    · rw [State.popFire_live hlist hlive]
      refine hbooks.step (.of_eq hlists ?_ ?_) (.same (fun _ => id) (fun _ => le_rfl) ?_)
      · intro m _ hm
        have hsame := (State.fired_live hm).2
        change (((s.setList l' nodes).fired n).coros m.coro).winner = .none at hm
        rwa [hsame] at hm
      · rintro m - ⟨hm, hsees⟩
        have hsame := (State.fired_live hm).2
        rw [hsame] at hm hsees
        exact ⟨hm, hsees⟩
      · exact fun u hmay =>
          hmay.imp id (State.fired_woken (s := s.setList l' nodes) hlive)
    · rw [State.popFire_dead hlist hlive]
      exact hbooks.step (.of_eq hlists (fun _ _ => id) fun _ _ => id)
        (.same (fun _ => id) (fun _ => le_rfl) fun _ => id)

theorem State.books_wakeLoop_of_ne [DecidableEq ι] {l' : Λ} (hl : l' ≠ l) {fuel count : Nat}
    (hbooks : (s.ledger l o).Books Node.coro) :
    ((State.wakeLoop l' fuel count s).ledger l o).Books Node.coro := by
  induction fuel generalizing count s with
  | zero => exact hbooks
  | succ fuel ih =>
    cases count with
    | zero => exact hbooks
    | succ count =>
      rw [State.wakeLoop_succ]
      exact ih (State.books_popFire_of_ne hl hbooks)

end Steps

end Uvent.Sync.Suspension
