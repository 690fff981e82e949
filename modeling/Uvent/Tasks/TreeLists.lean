import Uvent.Tasks.TreeOwners

/-!
# The lists of the children

A node is known to others once it is linked, or at once if it has no parent.  Its children
are those that were linked and are not unlinked, and the links between them make up a list.
-/

namespace Uvent.Tasks.CancelTree

open Uvent.Lib Uvent.Sync
open Uvent.Net.StateWord (Build)

def Known (s : State) (n : Nat) : Prop :=
  n < s.next ∧ ∀ t pc, s.threads t = .making n pc → 2 ≤ pc.rank

structure Knowing (s : State) : Prop where
  handle : ∀ i n, s.handle i = some n → Known s n
  parent : ∀ x n, s.parent x = some n → Known s n
  awaiter : ∀ j, (s.awaiter j).pc ≠ .unused → Known s (s.awaiter j).node
  linked : ∀ n, s.linked n = true → Known s n

structure Lists (s : State) (kids : Nat → List Nat) : Prop where
  row : ∀ p, Row s.nextSib s.prevSib none (s.firstChild p) (kids p)
  nodup : ∀ p, (kids p).Nodup
  member : ∀ p c, c ∈ kids p ↔ s.parent c = some p ∧ s.linked c = true
  linking : ∀ t c p, s.threads t = .making c (.link p) → s.parent c = some p
  attached : ∀ n p, s.parent n = some p → s.linked n = true ∨
    (∃ t, s.threads t = .making n (.link p)) ∨ (∃ t, s.threads t = .releasing n .free) ∨
      s.deleted n ≠ 0
  rooted : ∀ n, s.linked n = true → s.parent n ≠ none

section Turns

variable {s s' x : State} {t n : Nat} {th old : Thread}

/-- A thread goes on: no node becomes unknown, and no node that is being linked or deleted is
forgotten. -/
structure Turns (s s' : State) : Prop where
  known : ∀ n, Known s n → Known s' n
  linking : ∀ t c p, s'.threads t = .making c (.link p) → s.threads t = .making c (.link p)
  links : ∀ t c p, s.threads t = .making c (.link p) → s'.threads t = .making c (.link p)
  frees : ∀ t n, s.threads t = .releasing n .free →
    s'.threads t = .releasing n .free ∨ s'.deleted n ≠ 0
  deleted : ∀ n, s.deleted n ≠ 0 → s'.deleted n ≠ 0

/-- What a thread does next, behind the `link` of what it makes. -/
structure Thread.Plain (old th : Thread) : Prop where
  making : ∀ c pc', th = .making c pc' → ∃ pc, old = .making c pc ∧ pc.rank ≤ pc'.rank
  linking : ∀ c p, th ≠ .making c (.link p)
  links : ∀ c p, old ≠ .making c (.link p)
  frees : ∀ n, old ≠ .releasing n .free

theorem known_goto (hthreads : s'.threads = Function.update s.threads t th)
    (hnext : s.next ≤ s'.next)
    (hth : ∀ pc', th = .making n pc' → 2 ≤ pc'.rank ∨ ∃ pc, s.threads t = .making n pc ∧
      pc.rank ≤ pc'.rank) (hn : Known s n) : Known s' n := by
  obtain ⟨hlt, hmade⟩ := hn
  refine ⟨Nat.lt_of_lt_of_le hlt hnext, fun t' pc' hpc => ?_⟩
  rw [hthreads] at hpc
  by_cases ht : t' = t
  · subst ht
    rw [Function.update_self] at hpc
    rcases hth pc' hpc with htwo | ⟨pc, hpc₁, hle⟩
    · exact htwo
    · exact (hmade t' pc hpc₁).trans hle
  · rw [Function.update_of_ne ht] at hpc
    exact hmade t' pc' hpc

theorem Turns.goto (pc : s.threads t = old) (hx : x.threads = s.threads) (hnext : x.next = s.next)
    (hdeleted : x.deleted = s.deleted) (hplain : old.Plain th) : Turns s (x.goto t th) := by
  have hself : (x.goto t th).threads t = th := Function.update_self ..
  have hother : ∀ t', t' ≠ t → (x.goto t th).threads t' = s.threads t' := by
    intro t' ht
    rw [← hx]
    exact Function.update_of_ne ht ..
  refine ⟨fun n hn => ?_, ?_, ?_, ?_, ?_⟩
  · have hupdate : (x.goto t th).threads = Function.update s.threads t th := by
      rw [← hx]
      rfl
    refine known_goto hupdate hnext.ge (fun pc' heq => .inr ?_) hn
    rw [pc]
    exact hplain.making n pc' heq
  · intro t' c p hpc
    by_cases ht : t' = t
    · subst ht
      rw [hself] at hpc
      exact absurd hpc (hplain.linking c p)
    · rw [hother t' ht] at hpc
      exact hpc
  · intro t' c p hpc
    by_cases ht : t' = t
    · subst ht
      exact absurd (pc.symm.trans hpc) (hplain.links c p)
    · rw [hother t' ht]
      exact hpc
  · intro t' n hpc
    by_cases ht : t' = t
    · subst ht
      exact absurd (pc.symm.trans hpc) (hplain.frees n)
    · rw [hother t' ht]
      exact .inl hpc
  · intro n hn
    show x.deleted n ≠ 0
    rw [hdeleted]
    exact hn

theorem Turns.of_same (hthreads : s'.threads = s.threads) (hnext : s'.next = s.next)
    (hdeleted : s'.deleted = s.deleted) : Turns s s' := by
  refine ⟨?_, ?_, ?_, ?_, ?_⟩
  · unfold Known
    rw [hthreads, hnext]
    exact fun _ => id
  · rw [hthreads]
    exact fun _ _ _ => id
  · rw [hthreads]
    exact fun _ _ _ => id
  · rw [hthreads]
    exact fun _ _ => .inl
  · rw [hdeleted]
    exact fun _ => id

structure SameLinks (s s' : State) : Prop where
  parent : s'.parent = s.parent
  firstChild : s'.firstChild = s.firstChild
  prevSib : s'.prevSib = s.prevSib
  nextSib : s'.nextSib = s.nextSib
  linked : s'.linked = s.linked

theorem Lists.of_same {kids : Nat → List Nat} (h : Lists s kids) (hlinks : SameLinks s s')
    (hturns : Turns s s') : Lists s' kids := by
  refine ⟨?_, h.nodup, ?_, ?_, ?_, ?_⟩
  · rw [hlinks.nextSib, hlinks.prevSib, hlinks.firstChild]
    exact h.row
  · rw [hlinks.parent, hlinks.linked]
    exact h.member
  · intro t c p hpc
    rw [hlinks.parent]
    exact h.linking t c p (hturns.linking t c p hpc)
  · intro n p hp
    rw [hlinks.parent] at hp
    rw [hlinks.linked]
    rcases h.attached n p hp with hl | ⟨t, ht⟩ | ⟨t, ht⟩ | hd
    · exact .inl hl
    · exact .inr (.inl ⟨t, hturns.links t n p ht⟩)
    · exact .inr (.inr ((hturns.frees t n ht).imp_left fun hpc => ⟨t, hpc⟩))
    · exact .inr (.inr (.inr (hturns.deleted n hd)))
  · rw [hlinks.linked, hlinks.parent]
    exact h.rooted

theorem Knowing.of_same (h : Knowing s) (hlinks : SameLinks s s') (hturns : Turns s s')
    (hhandle : ∀ i n, s'.handle i = some n → s.handle i = some n ∨ Known s n)
    (hawaiter : ∀ j, (s'.awaiter j).pc ≠ .unused →
      ((s.awaiter j).pc ≠ .unused ∧ (s'.awaiter j).node = (s.awaiter j).node) ∨
        Known s (s'.awaiter j).node) : Knowing s' := by
  refine ⟨?_, ?_, ?_, ?_⟩
  · intro i n hi
    refine hturns.known n ?_
    rcases hhandle i n hi with hold | hknown
    · exact h.handle i n hold
    · exact hknown
  · intro x n hx
    rw [hlinks.parent] at hx
    exact hturns.known n (h.parent x n hx)
  · intro j hj
    refine hturns.known _ ?_
    rcases hawaiter j hj with ⟨hused, hnode⟩ | hknown
    · rw [hnode]
      exact h.awaiter j hused
    · exact hknown
  · intro n hn
    rw [hlinks.linked] at hn
    exact hturns.known n (h.linked n hn)

theorem Knowing.held (h : Knowing s) (hmakers : Makers s) (hn : s.Held n) : Known s n := by
  rcases hn with ⟨i, hi⟩ | hrun | hentry
  · exact h.handle i n hi
  · refine ⟨?_, fun t pc hpc => ?_⟩
    · by_contra hle
      rw [(hmakers.fresh n (by omega)).2.1] at hrun
      cases hrun
    · by_contra hle
      rw [hmakers.stopped t n pc hpc (by omega)] at hrun
      cases hrun
  · refine ⟨?_, fun t pc hpc => ?_⟩
    · by_contra hle
      rw [(hmakers.fresh n (by omega)).2.2] at hentry
      cases hentry
    · by_contra hle
      rw [hmakers.unlisted t n pc hpc (by omega)] at hentry
      cases hentry

end Turns

/-! ## Steps that change the links -/

section Links

variable {s : State} {kids : Nat → List Nat} {t c n p : Nat}

/-- Who makes a node and has not linked it is the only one to know it. -/
theorem not_known (pc : Making) (hpc : s.threads t = .making c pc) (hrank : pc.rank ≤ 1) :
    ¬Known s c := by
  intro hknown
  have htwo := hknown.2 t pc hpc
  omega

theorem Lists.childless (h : Lists s kids) (hk : Knowing s) (hc : ¬Known s c) : kids c = [] := by
  refine List.eq_nil_iff_forall_not_mem.mpr fun x hx => hc ?_
  exact hk.parent x c ((h.member c x).mp hx).1

theorem make_turns {task : Bool} {making : Making} (pc : s.threads t = .idle)
    (hmaking : ∀ p, making ≠ .link p) :
    Turns s ((s.alloc task).goto t (.making s.next making)) := by
  have hother : ∀ t', t' ≠ t →
      ((s.alloc task).goto t (.making s.next making)).threads t' = s.threads t' :=
    fun t' ht => Function.update_of_ne ht ..
  refine ⟨fun n hn => ?_, ?_, ?_, ?_, fun _ hn => hn⟩
  · have hupdate : ((s.alloc task).goto t (.making s.next making)).threads =
        Function.update s.threads t (.making s.next making) := rfl
    refine known_goto hupdate (Nat.le_succ _) (fun pc' heq => ?_) hn
    obtain ⟨rfl, -⟩ := Thread.making.inj heq
    exact absurd hn.1 (lt_irrefl _)
  · intro t' c p hpc
    by_cases ht : t' = t
    · subst ht
      have heq : Thread.making s.next making = .making c (.link p) :=
        (Function.update_self ..).symm.trans hpc
      exact absurd (Thread.making.inj heq).2 (hmaking p)
    · rw [hother t' ht] at hpc
      exact hpc
  · intro t' c p hpc
    by_cases ht : t' = t
    · subst ht
      cases pc.symm.trans hpc
    · rw [hother t' ht]
      exact hpc
  · intro t' n hpc
    by_cases ht : t' = t
    · subst ht
      cases pc.symm.trans hpc
    · rw [hother t' ht]
      exact .inl hpc

theorem free_turns (pc : s.threads t = .releasing n .free) {th : Thread}
    (hth : ∀ c pc, th ≠ .making c pc) :
    Turns s ({ s with deleted := Function.update s.deleted n (s.deleted n + 1) }.goto t th) := by
  have hdeleted : ∀ m, s.deleted m ≠ 0 ∨ m = n →
      Function.update s.deleted n (s.deleted n + 1) m ≠ 0 := by
    intro m hm
    by_cases hmn : m = n
    · subst hmn
      rw [Function.update_self]
      exact Nat.succ_ne_zero _
    · rw [Function.update_of_ne hmn]
      exact hm.resolve_right hmn
  have hother : ∀ t', t' ≠ t → ({ s with
      deleted := Function.update s.deleted n (s.deleted n + 1) }.goto t th).threads t' =
        s.threads t' := fun t' ht => Function.update_of_ne ht ..
  refine ⟨fun m hm => ?_, ?_, ?_, ?_, fun m hm => hdeleted m (.inl hm)⟩
  · have hupdate : ({ s with deleted := Function.update s.deleted n (s.deleted n + 1) }.goto t
        th).threads = Function.update s.threads t th := rfl
    exact known_goto hupdate (Nat.le_refl _) (fun pc' heq => absurd heq (hth m pc')) hm
  · intro t' c p hpc
    by_cases ht : t' = t
    · subst ht
      exact absurd ((Function.update_self ..).symm.trans hpc) (hth c _)
    · rw [hother t' ht] at hpc
      exact hpc
  · intro t' c p hpc
    by_cases ht : t' = t
    · subst ht
      cases pc.symm.trans hpc
    · rw [hother t' ht]
      exact hpc
  · intro t' m hpc
    by_cases ht : t' = t
    · subst ht
      obtain ⟨rfl, -⟩ := Thread.releasing.inj (pc.symm.trans hpc)
      exact .inr (hdeleted _ (.inr rfl))
    · rw [hother t' ht]
      exact .inl hpc

theorem retain_lists (h : Lists s kids) (hk : Knowing s) (hmakers : Makers s)
    (pc : s.threads t = .making c (.retain p)) :
    Lists ({ s.addRef p with parent := Function.update s.parent c (some p) }.goto t
      (.making c (.link p))) kids := by
  have horphan := hmakers.orphan t c _ pc rfl
  have hunlinked : s.linked c ≠ true := fun hl => not_known _ pc (Nat.zero_le _) (hk.linked c hl)
  have hparent : ∀ x, x ≠ c → Function.update s.parent c (some p) x = s.parent x :=
    fun x hx => Function.update_of_ne hx ..
  have hself : ({ s.addRef p with parent := Function.update s.parent c (some p) }.goto t
      (.making c (.link p))).threads t = .making c (.link p) := Function.update_self ..
  have hother : ∀ t', t' ≠ t → ({ s.addRef p with
      parent := Function.update s.parent c (some p) }.goto t (.making c (.link p))).threads t' =
        s.threads t' := fun t' ht => Function.update_of_ne ht ..
  refine ⟨h.row, h.nodup, ?_, ?_, ?_, ?_⟩
  · intro q x
    show _ ↔ Function.update s.parent c (some p) x = some q ∧ s.linked x = true
    by_cases hx : x = c
    · subst hx
      exact iff_of_false (fun hin => hunlinked ((h.member q x).mp hin).2) (fun hc => hunlinked hc.2)
    · rw [hparent x hx]
      exact h.member q x
  · intro t' c' p' hpc
    show Function.update s.parent c (some p) c' = some p'
    by_cases ht : t' = t
    · subst ht
      obtain ⟨rfl, hlink⟩ := Thread.making.inj (hself.symm.trans hpc)
      obtain rfl := Making.link.inj hlink
      exact Function.update_self ..
    · rw [hother t' ht] at hpc
      have hc : c' ≠ c := by
        rintro rfl
        exact ht (hmakers.maker _ _ _ _ _ hpc pc)
      rw [hparent c' hc]
      exact h.linking t' c' p' hpc
  · intro m q hq
    by_cases hm : m = c
    · subst hm
      have hnew : Function.update s.parent m (some p) m = some q := hq
      rw [Function.update_self] at hnew
      obtain rfl := Option.some.inj hnew
      exact .inr (.inl ⟨t, hself⟩)
    · have hold : s.parent m = some q := (hparent m hm).symm.trans hq
      have hkeep : ∀ t' v, s.threads t' = v → v ≠ .making c (.retain p) →
          ({ s.addRef p with parent := Function.update s.parent c (some p) }.goto t
            (.making c (.link p))).threads t' = v := by
        intro t' v hv hne
        by_cases ht : t' = t
        · subst ht
          exact absurd (hv.symm.trans pc) hne
        · rw [hother t' ht]
          exact hv
      rcases h.attached m q hold with hl | ⟨t', ht'⟩ | ⟨t', ht'⟩ | hd
      · exact .inl hl
      · exact .inr (.inl ⟨t', hkeep t' _ ht' (by simp)⟩)
      · exact .inr (.inr (.inl ⟨t', hkeep t' _ ht' (by simp)⟩))
      · exact .inr (.inr (.inr hd))
  · intro m hm
    show Function.update s.parent c (some p) m ≠ none
    by_cases hmc : m = c
    · subst hmc
      exact absurd hm hunlinked
    · rw [hparent m hmc]
      exact h.rooted m hm

theorem retain_known (pc : s.threads t = .making c (.retain p))
    (hn : Known s n) : Known ({ s.addRef p with
      parent := Function.update s.parent c (some p) }.goto t (.making c (.link p))) n := by
  have hupdate : ({ s.addRef p with parent := Function.update s.parent c (some p) }.goto t
      (.making c (.link p))).threads = Function.update s.threads t (.making c (.link p)) := rfl
  refine known_goto hupdate (Nat.le_refl _) (fun pc' heq => ?_) hn
  obtain ⟨rfl, -⟩ := Thread.making.inj heq
  exact absurd hn (not_known _ pc (Nat.zero_le _))

theorem retain_knowing (hk : Knowing s) (hmakers : Makers s)
    (pc : s.threads t = .making c (.retain p)) (held : s.Held p) :
    Knowing ({ s.addRef p with parent := Function.update s.parent c (some p) }.goto t
      (.making c (.link p))) := by
  refine ⟨?_, ?_, ?_, ?_⟩
  · exact fun i n hi => retain_known pc (hk.handle i n hi)
  · intro x n hx
    refine retain_known pc ?_
    by_cases hxc : x = c
    · subst hxc
      have hnew : Function.update s.parent x (some p) x = some n := hx
      rw [Function.update_self] at hnew
      obtain rfl := Option.some.inj hnew
      exact hk.held hmakers held
    · exact hk.parent x n ((Function.update_of_ne hxc ..).symm.trans hx)
  · exact fun j hj => retain_known pc (hk.awaiter j hj)
  · exact fun n hn => retain_known pc (hk.linked n hn)

/-- The child that is being linked is not known, and its parent is another node. -/
theorem Lists.link_ne (h : Lists s kids) (hk : Knowing s)
    (pc : s.threads t = .making c (.link p)) : p ≠ c ∧ s.linked c ≠ true := by
  have hunknown := not_known _ pc (Nat.le_refl 1)
  refine ⟨?_, fun hl => hunknown (hk.linked c hl)⟩
  rintro rfl
  exact hunknown (hk.parent p p (h.linking t p p pc))

theorem Lists.disjoint (h : Lists s kids) {q x y : Nat} (hpq : p ≠ q) (hx : x ∈ kids p)
    (hy : y ∈ kids q) : x ≠ y := by
  rintro rfl
  have hp := ((h.member p x).mp hx).1
  have hq := ((h.member q x).mp hy).1
  exact hpq (Option.some.inj (hp.symm.trans hq))

theorem link_lists (h : Lists s kids) (hk : Knowing s) (pc : s.threads t = .making c (.link p)) :
    Lists ((s.link p c).goto t (.making c (s.behindLink c)))
      (Function.update kids p (c :: kids p)) := by
  obtain ⟨hpc, hunlinked⟩ := h.link_ne hk pc
  have hparent := h.linking t c p pc
  have hout : ∀ q, c ∉ kids q := fun q hin => hunlinked ((h.member q c).mp hin).2
  have hself : ((s.link p c).goto t (.making c (s.behindLink c))).threads t =
      .making c (s.behindLink c) := Function.update_self ..
  have hother : ∀ t', t' ≠ t → ((s.link p c).goto t (.making c (s.behindLink c))).threads t' =
      s.threads t' := fun t' ht => Function.update_of_ne ht ..
  have hlinked : ∀ x, x ≠ c → Function.update s.linked c true x = s.linked x :=
    fun x hx => Function.update_of_ne hx ..
  have hnot : ∀ c' p', Thread.making c (s.behindLink c) ≠ .making c' (.link p') := by
    intro c' p' heq
    obtain ⟨-, hlink⟩ := Thread.making.inj heq
    unfold State.behindLink at hlink
    split at hlink <;> cases hlink
  refine ⟨?_, ?_, ?_, ?_, ?_, ?_⟩
  · intro q
    show Row (Function.update s.nextSib c (s.firstChild p))
      (setAt (Function.update s.prevSib c none) (s.firstChild p) (some c)) none
      (Function.update s.firstChild p (some c) q) (Function.update kids p (c :: kids p) q)
    by_cases hq : q = p
    · subst hq
      rw [Function.update_self, Function.update_self]
      exact (h.row q).push (hout q) (h.nodup q)
    · rw [Function.update_of_ne hq, Function.update_of_ne hq]
      refine (h.row q).congr fun x hx => ?_
      have hxc : x ≠ c := fun heq => hout q (heq ▸ hx)
      have hfirst : s.firstChild p ≠ some x := by
        intro heq
        have hhead : (kids p).head? = some x := (h.row p).head.symm.trans heq
        exact h.disjoint (Ne.symm hq) (List.mem_of_mem_head? hhead) hx rfl
      exact ⟨Function.update_of_ne hxc ..,
        (setAt_of_ne _ hfirst).trans (Function.update_of_ne hxc ..)⟩
  · intro q
    by_cases hq : q = p
    · subst hq
      rw [Function.update_self]
      exact List.nodup_cons.mpr ⟨hout q, h.nodup q⟩
    · rw [Function.update_of_ne hq]
      exact h.nodup q
  · intro q x
    show _ ↔ s.parent x = some q ∧ Function.update s.linked c true x = true
    by_cases hx : x = c
    · subst hx
      rw [Function.update_self, hparent]
      by_cases hq : q = p
      · subst hq
        rw [Function.update_self]
        exact iff_of_true List.mem_cons_self ⟨rfl, rfl⟩
      · rw [Function.update_of_ne hq]
        exact iff_of_false (hout q) fun hc => hq (Option.some.inj hc.1).symm
    · rw [hlinked x hx]
      by_cases hq : q = p
      · subst hq
        rw [Function.update_self, List.mem_cons]
        exact (or_iff_right hx).trans (h.member q x)
      · rw [Function.update_of_ne hq]
        exact h.member q x
  · intro t' c' p' hpc'
    by_cases ht : t' = t
    · subst ht
      exact absurd (hself.symm.trans hpc') (hnot c' p')
    · rw [hother t' ht] at hpc'
      exact h.linking t' c' p' hpc'
  · intro m q hq
    show Function.update s.linked c true m = true ∨ _
    by_cases hm : m = c
    · subst hm
      exact .inl (Function.update_self ..)
    · rw [hlinked m hm]
      have hkeep : ∀ t' v, s.threads t' = v → v ≠ .making c (.link p) →
          ((s.link p c).goto t (.making c (s.behindLink c))).threads t' = v := by
        intro t' v hv hne
        by_cases ht : t' = t
        · subst ht
          exact absurd (hv.symm.trans pc) hne
        · rw [hother t' ht]
          exact hv
      rcases h.attached m q hq with hl | ⟨t', ht'⟩ | ⟨t', ht'⟩ | hd
      · exact .inl hl
      · refine .inr (.inl ⟨t', hkeep t' _ ht' ?_⟩)
        exact fun heq => hm (Thread.making.inj heq).1
      · exact .inr (.inr (.inl ⟨t', hkeep t' _ ht' (by simp)⟩))
      · exact .inr (.inr (.inr hd))
  · intro m hm
    show s.parent m ≠ none
    by_cases hmc : m = c
    · subst hmc
      rw [hparent]
      exact Option.some_ne_none p
    · exact h.rooted m ((hlinked m hmc).symm.trans hm)

theorem link_knowing (hk : Knowing s) (hmakers : Makers s)
    (pc : s.threads t = .making c (.link p)) :
    Knowing ((s.link p c).goto t (.making c (s.behindLink c))) := by
  have hrank : 2 ≤ (s.behindLink c).rank := by
    unfold State.behindLink
    split
    · exact Nat.le_refl 2
    · exact Nat.le_of_ble_eq_true rfl
  have hknown : ∀ n, Known s n → Known ((s.link p c).goto t (.making c (s.behindLink c))) n := by
    intro n hn
    have hupdate : ((s.link p c).goto t (.making c (s.behindLink c))).threads =
        Function.update s.threads t (.making c (s.behindLink c)) := rfl
    refine known_goto hupdate (Nat.le_refl _) (fun pc' heq => .inl ?_) hn
    obtain ⟨-, rfl⟩ := Thread.making.inj heq
    exact hrank
  refine ⟨fun i n hi => hknown n (hk.handle i n hi), fun x n hx => hknown n (hk.parent x n hx),
    fun j hj => hknown _ (hk.awaiter j hj), fun n hn => ?_⟩
  by_cases hnc : n = c
  · subst hnc
    refine ⟨hmakers.made t n _ pc, fun t' pc' hpc' => ?_⟩
    by_cases ht : t' = t
    · subst ht
      obtain ⟨-, rfl⟩ := Thread.making.inj ((Function.update_self ..).symm.trans hpc')
      exact hrank
    · have hold : s.threads t' = .making n pc' := (Function.update_of_ne ht ..).symm.trans hpc'
      exact absurd (hmakers.maker _ _ _ _ _ hold pc) ht
  · exact hknown n (hk.linked n ((Function.update_of_ne hnc ..).symm.trans hn))

/-- A node that is about to be unlinked is in the list of its parent. -/
theorem Lists.linked_of_unlink (h : Lists s kids) (hl : Ledger s)
    (pc : s.threads t = .releasing n .unlink) (up : s.parent n = some p) : s.linked n = true := by
  have hburying : (s.threads t).burying = some n := by rw [pc]; rfl
  obtain ⟨-, hzero, hundeleted⟩ := hl.burying hburying
  rcases h.attached n p up with hlinked | ⟨t', ht'⟩ | ⟨t', ht'⟩ | hd
  · exact hlinked
  · have hhand : s.points (.thread t') = some n := by
      show (s.threads t').hand = some n
      rw [ht']
      rfl
    exact absurd hzero (hl.refs_ne hhand)
  · obtain ⟨k, hk, hsum⟩ := hl.buried
    have hle : k n ≤ 1 := by
      have hn := hsum n
      split at hn <;> omega
    have hburying' : s.graves t' = some n := by
      show (s.threads t').burying = some n
      rw [ht']
      rfl
    obtain rfl := hk.unique hle hburying hburying'
    cases pc.symm.trans ht'
  · exact absurd hundeleted hd

theorem unlink_lists (h : Lists s kids) (hl : Ledger s)
    (pc : s.threads t = .releasing n .unlink) (up : s.parent n = some p) :
    Lists ((s.unlinkFromParent p n).goto t (.releasing n .free))
      (Function.update kids p ((kids p).erase n)) := by
  have hlinked := h.linked_of_unlink hl pc up
  have hin : n ∈ kids p := (h.member p n).mpr ⟨up, hlinked⟩
  have hself : ((s.unlinkFromParent p n).goto t (.releasing n .free)).threads t =
      .releasing n .free := Function.update_self ..
  have hother : ∀ t', t' ≠ t → ((s.unlinkFromParent p n).goto t (.releasing n .free)).threads t' =
      s.threads t' := fun t' ht => Function.update_of_ne ht ..
  have hrest : ∀ x, x ≠ n → Function.update s.linked n false x = s.linked x :=
    fun x hx => Function.update_of_ne hx ..
  have hfirst : (if (s.prevSib n).isSome then s.firstChild
      else Function.update s.firstChild p (s.nextSib n)) p =
        if s.firstChild p = some n then s.nextSib n else s.firstChild p := by
    have hrow := h.row p
    by_cases hhead : s.firstChild p = some n
    · have hprev : s.prevSib n = none := by
        cases hk : kids p with
        | nil =>
            rw [hk] at hin
            cases hin
        | cons y l =>
            rw [hk] at hrow
            obtain rfl := Option.some.inj (hrow.1.symm.trans hhead)
            exact hrow.2.1
      rw [hprev, if_pos hhead, if_neg (by simp), Function.update_self]
    · rcases hrow.prev_cases hin with ⟨hcur, -⟩ | ⟨y, -, hprev⟩
      · exact absurd hcur hhead
      · rw [hprev, if_neg hhead, if_pos (by simp)]
  refine ⟨?_, ?_, ?_, ?_, ?_, ?_⟩
  · intro q
    show Row (Function.update (setAt s.nextSib (s.prevSib n) (s.nextSib n)) n none)
      (Function.update (setAt s.prevSib (s.nextSib n) (s.prevSib n)) n none) none
      ((if (s.prevSib n).isSome then s.firstChild
        else Function.update s.firstChild p (s.nextSib n)) q)
      (Function.update kids p ((kids p).erase n) q)
    by_cases hq : q = p
    · subst hq
      rw [Function.update_self, hfirst]
      exact (h.row q).remove hin (h.nodup q) (by simp)
    · have hsame : (if (s.prevSib n).isSome then s.firstChild
          else Function.update s.firstChild p (s.nextSib n)) q = s.firstChild q := by
        split
        · rfl
        · exact Function.update_of_ne hq ..
      rw [Function.update_of_ne hq, hsame]
      refine (h.row q).congr fun x hx => ?_
      have hxn : x ≠ n := h.disjoint hq hx hin
      have hnext : s.nextSib n ≠ some x := by
        intro heq
        exact h.disjoint hq hx ((h.row p).next_mem hin heq) rfl
      have hprev : s.prevSib n ≠ some x := by
        intro heq
        rcases (h.row p).prev_cases hin with ⟨-, hnone⟩ | ⟨y, hy, hprev⟩
        · rw [hnone] at heq
          cases heq
        · obtain rfl := Option.some.inj (hprev.symm.trans heq)
          exact h.disjoint hq hx hy rfl
      rw [Function.update_of_ne hxn, Function.update_of_ne hxn, setAt_of_ne _ hprev,
        setAt_of_ne _ hnext]
      exact ⟨rfl, rfl⟩
  · intro q
    by_cases hq : q = p
    · subst hq
      rw [Function.update_self]
      exact (h.nodup q).erase n
    · rw [Function.update_of_ne hq]
      exact h.nodup q
  · intro q x
    show _ ↔ s.parent x = some q ∧ Function.update s.linked n false x = true
    by_cases hx : x = n
    · subst hx
      rw [Function.update_self]
      refine iff_of_false ?_ (fun hc => by cases hc.2)
      by_cases hq : q = p
      · subst hq
        rw [Function.update_self]
        exact (h.nodup q).not_mem_erase
      · rw [Function.update_of_ne hq]
        exact fun hin' => h.disjoint hq hin' hin rfl
    · rw [hrest x hx]
      by_cases hq : q = p
      · subst hq
        rw [Function.update_self, List.mem_erase_of_ne hx]
        exact h.member q x
      · rw [Function.update_of_ne hq]
        exact h.member q x
  · intro t' c' p' hpc'
    by_cases ht : t' = t
    · subst ht
      cases hself.symm.trans hpc'
    · rw [hother t' ht] at hpc'
      exact h.linking t' c' p' hpc'
  · intro m q hq
    show Function.update s.linked n false m = true ∨ _
    by_cases hm : m = n
    · subst hm
      exact .inr (.inr (.inl ⟨t, hself⟩))
    · rw [hrest m hm]
      have hkeep : ∀ t' v, s.threads t' = v → v ≠ .releasing n .unlink →
          ((s.unlinkFromParent p n).goto t (.releasing n .free)).threads t' = v := by
        intro t' v hv hne
        by_cases ht : t' = t
        · subst ht
          exact absurd (hv.symm.trans pc) hne
        · rw [hother t' ht]
          exact hv
      rcases h.attached m q hq with hl' | ⟨t', ht'⟩ | ⟨t', ht'⟩ | hd
      · exact .inl hl'
      · exact .inr (.inl ⟨t', hkeep t' _ ht' (by simp)⟩)
      · exact .inr (.inr (.inl ⟨t', hkeep t' _ ht' (by simp)⟩))
      · exact .inr (.inr (.inr hd))
  · intro m hm
    show s.parent m ≠ none
    by_cases hmn : m = n
    · subst hmn
      rw [up]
      exact Option.some_ne_none p
    · exact h.rooted m ((hrest m hmn).symm.trans hm)

theorem unlink_knowing (hk : Knowing s) (pc : s.threads t = .releasing n .unlink) :
    Knowing ((s.unlinkFromParent p n).goto t (.releasing n .free)) := by
  have hknown : ∀ m, Known s m →
      Known ((s.unlinkFromParent p n).goto t (.releasing n .free)) m := by
    intro m hm
    have hupdate : ((s.unlinkFromParent p n).goto t (.releasing n .free)).threads =
        Function.update s.threads t (.releasing n .free) := rfl
    exact known_goto hupdate (Nat.le_refl _) (fun pc' heq => by cases heq) hm
  refine ⟨fun i m hi => hknown m (hk.handle i m hi), fun x m hx => hknown m (hk.parent x m hx),
    fun j hj => hknown _ (hk.awaiter j hj), fun m hm => hknown m (hk.linked m ?_)⟩
  by_cases hmn : m = n
  · subst hmn
    cases (Function.update_self ..).symm.trans hm
  · exact (Function.update_of_ne hmn ..).symm.trans hm

end Links

end Uvent.Tasks.CancelTree
