import Mathlib.Data.Set.Card
import Uvent.Sync.SemaphoreWakes

/-!
# The permits of a semaphore

What `acquire`, `try_acquire` and `release` do to the count, in any interleaving: the count is
what was there with what was released and without what the successful calls took, a cancelled
`acquire` took nothing, and nobody is left waiting for a permit that is there.
-/

namespace Uvent.Sync.Primitives

open Uvent.Lib Uvent.Sync.Suspension

variable {α : Type}

/-- `acquire` or `try_acquire` of semaphore `m`. -/
def Call.Acquires (m : Nat) (call : Call α) : Prop :=
  call = .plain (.acquire m) ∨ call = .once (.acquire m)

def Entry.releases (m : Nat) : Entry α → Int
  | .released n k => if n = m then k else 0
  | _ => 0

def released (m : Nat) (log : List (Entry α)) : Int := (log.map (Entry.releases m)).sum

def Entry.acquires (m : Nat) : Entry α → Option (Nat × Nat)
  | .acquired n t i => if n = m then some (t, i) else none
  | _ => none

def acquired (m : Nat) (log : List (Entry α)) : List (Nat × Nat) :=
  log.filterMap (Entry.acquires m)

def Pc.ended : Pc α → Option (Call α × Answer α)
  | .waking c _ _ a => some (c.call, a)
  | _ => none

/-- Call `n` of coroutine `t` was `call`, and its answer is `a`. -/
def State.Ended (s : State α) (t n : Nat) (call : Call α) (a : Answer α) : Prop :=
  .returned t n call a ∈ s.log ∨ n = s.calls t ∧ (s.pcs t).ended = some (call, a)

def State.Succeeded (s : State α) (m : Nat) (x : Nat × Nat) : Prop :=
  ∃ call i r, call.Acquires m ∧ s.Ended x.1 x.2 call (.done i r)

structure Counted (w : Words α) (s : State α) : Prop where
  counts : ∀ m, s.words.counts m = w.counts m + released m s.log - (acquired m s.log).length
  nonneg : ∀ m, 0 ≤ s.words.counts m

structure Answered (s : State α) : Prop where
  nodup : ∀ m, (acquired m s.log).Nodup
  taken : ∀ m x, x ∈ acquired m s.log ↔ s.Succeeded m x
  once : ∀ t n call call' a a', .returned t n call a ∈ s.log → .returned t n call' a' ∈ s.log →
    call = call' ∧ a = a'
  past : ∀ t n call a, .returned t n call a ∈ s.log →
    n < s.calls t ∨ n = s.calls t ∧ s.pcs t = .idle

theorem counted_new {w : Words α} (hw : ∀ m, 0 ≤ w.counts m) : Counted w (.new w) where
  counts m := by simp [State.new, released, acquired]
  nonneg := hw

theorem answered_new (w : Words α) : Answered (State.new w) where
  nodup _ := List.nodup_nil
  taken m x := by
    refine iff_of_false List.not_mem_nil ?_
    rintro ⟨call, i, r, -, h | ⟨-, h⟩⟩
    · exact List.not_mem_nil h
    · change none = some _ at h
      cases h
  once _ _ _ _ _ _ h := (List.not_mem_nil h).elim
  past _ _ _ _ h := (List.not_mem_nil h).elim

/-! ### The count -/

namespace Counted

variable {w : Words α} {s s' : State α} {t m : Nat}

theorem of_eq (h : Counted w s) (hcounts : s'.words.counts = s.words.counts)
    (hreleased : ∀ m, released m s'.log = released m s.log)
    (hacquired : ∀ m, acquired m s'.log = acquired m s.log) : Counted w s' where
  counts m := by
    rw [hcounts, hreleased, hacquired]
    exact h.counts m
  nonneg m := by
    rw [hcounts]
    exact h.nonneg m

theorem tried (h : Counted w s) {c : Ctx α} {k : Nat} (htried : Tried s t c k m s') :
    Counted w s' := by
  cases htried with
  | fails | goes => exact h.of_eq rfl (fun _ => rfl) fun _ => rfl
  | takes hcount =>
    refine ⟨fun n => ?_, fun n => ?_⟩
    · change (s.words.setCount m _).counts n = _
      have hold := h.counts n
      by_cases hn : n = m
      · subst hn
        rw [Words.setCount_self]
        simp only [released, acquired, List.map_cons, List.sum_cons, Entry.releases,
          List.filterMap_cons, Entry.acquires, if_true, List.length_cons] at hold ⊢
        omega
      · rw [Words.setCount_of_ne _ hn]
        simp only [released, acquired, List.map_cons, List.sum_cons, Entry.releases,
          List.filterMap_cons, Entry.acquires, if_neg (Ne.symm hn)] at hold ⊢
        omega
    · change 0 ≤ (s.words.setCount m _).counts n
      by_cases hn : n = m
      · subst hn
        rw [Words.setCount_self]
        omega
      · rw [Words.setCount_of_ne _ hn]
        exact h.nonneg n

theorem direct (h : Counted w s) (hpermits : s.Permits) {c : Ctx α} (hpc : s.pcs t = .direct c) :
    Counted w (s.direct t c) := by
  obtain ⟨m, k, hcall⟩ := hpermits.at_pc hpc
  rw [State.direct_release hcall]
  refine ⟨fun n => ?_, fun n => ?_⟩
  · change (s.words.setCount m _).counts n = _
    have hold := h.counts n
    by_cases hn : n = m
    · subst hn
      rw [Words.setCount_self]
      simp only [released, acquired, List.map_cons, List.sum_cons, Entry.releases,
        List.filterMap_cons, Entry.acquires, if_true] at hold ⊢
      omega
    · rw [Words.setCount_of_ne _ hn]
      simp only [released, acquired, List.map_cons, List.sum_cons, Entry.releases,
        List.filterMap_cons, Entry.acquires, if_neg (Ne.symm hn)] at hold ⊢
      omega
  · change 0 ≤ (s.words.setCount m _).counts n
    have hold := h.nonneg n
    by_cases hn : n = m
    · subst hn
      rw [Words.setCount_self]
      omega
    · rw [Words.setCount_of_ne _ hn]
      exact hold

theorem step {calls : Call α → Prop} {who : Option Nat} (h : Counted w s) (hpermits : s.Permits)
    (hstep : Step calls s who s') : Counted w s' := by
  cases hstep with
  | attempt t c k op p spurious hpc hop =>
    obtain ⟨hcalled, -, hp⟩ := hpermits.at_pc hpc
    obtain ⟨n, rfl, -⟩ := hcalled.ops hop
    exact h.tried (s.tried t c k n hp spurious)
  | direct t c hpc => exact h.direct hpermits hpc
  | load t c w k l p enqFirst =>
    obtain ⟨p', hload⟩ | ⟨b, hload⟩ := s.load_cases t c w k l p enqFirst <;> rw [hload]
    · exact h.of_eq rfl (fun _ => rfl) fun _ => rfl
    · exact h.of_eq rfl (fun _ => rfl) fun _ => rfl
  | begin | drain | pause | check | inner | loadFired | answer | peek | wake | finalize =>
    exact h.of_eq rfl (fun _ => rfl) fun _ => rfl
  | finish t c a hpc _ =>
    refine h.of_eq rfl (fun n => ?_) fun _ => rfl
    exact Int.zero_add _

end Counted

/-! ### The answers -/

theorem Call.Acquires.eq {call : Call α} {m n : Nat} (h : call.Acquires m) (h' : call.Acquires n) :
    m = n := by
  obtain rfl | rfl := h
  · obtain h' | h' := h'
    · cases h'
      rfl
    · cases h'
  · obtain h' | h' := h'
    · cases h'
    · cases h'
      rfl

namespace Answered

variable {s s' : State α} {t m : Nat}

/-- The calls that have succeeded are the same. -/
theorem taken_of_eq (h : Answered s) (hacquired : ∀ m, acquired m s'.log = acquired m s.log)
    (hended : ∀ t n call i r m, call.Acquires m →
      (s'.Ended t n call (.done i r) ↔ s.Ended t n call (.done i r))) (m : Nat) (x : Nat × Nat) :
    x ∈ acquired m s'.log ↔ s'.Succeeded m x := by
  rw [hacquired, h.taken]
  constructor
  · rintro ⟨call, i, r, hcall, hx⟩
    exact ⟨call, i, r, hcall, (hended _ _ _ _ _ m hcall).mpr hx⟩
  · rintro ⟨call, i, r, hcall, hx⟩
    exact ⟨call, i, r, hcall, (hended _ _ _ _ _ m hcall).mp hx⟩

theorem goes (h : Answered s) {pc : Pc α} (hpcs : s'.pcs = Function.update s.pcs t pc)
    (hcalls : s'.calls = s.calls) (hacquired : ∀ m, acquired m s'.log = acquired m s.log)
    (hreturned : ∀ u n call a, .returned u n call a ∈ s'.log ↔ .returned u n call a ∈ s.log)
    (hbusy : s.pcs t ≠ .idle)
    (hended : ∀ call i r m, call.Acquires m →
      (pc.ended = some (call, .done i r) ↔ (s.pcs t).ended = some (call, .done i r))) :
    Answered s' where
  nodup m := by
    rw [hacquired]
    exact h.nodup m
  taken := by
    refine h.taken_of_eq hacquired fun u n call i r m hcall => ?_
    rw [State.Ended, State.Ended, hreturned, hcalls, hpcs]
    by_cases hu : u = t
    · subst hu
      rw [Function.update_self, hended call i r m hcall]
    · rw [Function.update_of_ne hu]
  once u n call call' a a' hr hr' :=
    h.once u n call call' a a' ((hreturned ..).mp hr) ((hreturned ..).mp hr')
  past u n call a hr := by
    rw [hcalls, hpcs]
    obtain hlt | ⟨heq, hidle⟩ := h.past u n call a ((hreturned ..).mp hr)
    · exact .inl hlt
    · refine .inr ⟨heq, ?_⟩
      have hu : u ≠ t := by
        rintro rfl
        exact hbusy hidle
      rw [Function.update_of_ne hu]
      exact hidle

/-- A coroutine goes on in a call that has no permit. -/
theorem proceeds (h : Answered s) {pc pc' : Pc α} (hpc : s.pcs t = pc)
    (hpcs : s'.pcs = Function.update s.pcs t pc') (hcalls : s'.calls = s.calls)
    (hlog : s'.log = s.log) (hbusy : pc ≠ .idle) (hold : ∀ call i r, pc.ended ≠ some (call, .done i r))
    (hnew : ∀ call i r, pc'.ended ≠ some (call, .done i r)) : Answered s' := by
  refine h.goes hpcs hcalls (fun _ => by rw [hlog]) (fun _ _ _ _ => by rw [hlog]) (hpc ▸ hbusy) ?_
  intro call i r _ _
  rw [hpc]
  exact iff_of_false (hnew call i r) (hold call i r)

theorem attempt_ended (c : Ctx α) (k : Nat) : (c.attempt k).ended = none := by
  rw [Ctx.attempt]
  split <;> rfl

theorem begin (h : Answered s) (hpc : s.pcs t = .idle) (call : Call α) (start : Nat) :
    Answered (s.begin t call start) where
  nodup := h.nodup
  taken := by
    refine h.taken_of_eq (fun _ => rfl) fun u n call' i r m _ => or_congr Iff.rfl ?_
    change n = Function.update s.calls t (s.calls t + 1) u ∧
      (Function.update s.pcs t _ u).ended = _ ↔ _
    by_cases hu : u = t
    · subst hu
      rw [Function.update_self, Function.update_self, hpc]
      refine iff_of_false (fun hx => ?_) fun hx => ?_
      · obtain ⟨-, hx⟩ := hx
        split at hx
        · cases hx
        · rw [attempt_ended] at hx
          cases hx
      · cases hx.2
    · rw [Function.update_of_ne hu, Function.update_of_ne hu]
  once := h.once
  past u n call' a hr := by
    change n < Function.update s.calls t (s.calls t + 1) u ∨
      n = Function.update s.calls t (s.calls t + 1) u ∧ Function.update s.pcs t _ u = .idle
    have hold := h.past u n call' a hr
    by_cases hu : u = t
    · subst hu
      rw [Function.update_self]
      omega
    · rwa [Function.update_of_ne hu, Function.update_of_ne hu]

/-- The call that takes the permit has none yet. -/
theorem not_acquired (h : Answered s) {pc : Pc α} (hpc : s.pcs t = pc) (hbusy : pc ≠ .idle)
    (hended : pc.ended = none) (m : Nat) : (t, s.calls t) ∉ acquired m s.log := by
  intro hmem
  obtain ⟨call, i, r, -, hr | ⟨-, hx⟩⟩ := (h.taken m _).mp hmem
  · obtain hlt | ⟨-, hidle⟩ := h.past _ _ _ _ hr
    · exact Nat.lt_irrefl _ hlt
    · exact hbusy (hpc.symm.trans hidle)
  · change (s.pcs t).ended = _ at hx
    rw [hpc, hended] at hx
    cases hx

theorem ended_iff {pc : Pc α} {e : Entry α} {call : Call α} {a : Answer α}
    (hpcs : s'.pcs = Function.update s.pcs t pc) (hcalls : s'.calls = s.calls)
    (hlog : s'.log = e :: s.log) (he : ∀ u n call a, e ≠ .returned u n call a)
    (hpc : (s.pcs t).ended = none) (hended : pc.ended = some (call, a)) (u n : Nat)
    (call' : Call α) (a' : Answer α) : s'.Ended u n call' a' ↔
      s.Ended u n call' a' ∨ (u, n) = (t, s.calls t) ∧ call' = call ∧ a' = a := by
  rw [State.Ended, State.Ended, hlog, hcalls, hpcs, List.mem_cons, or_iff_right (he _ _ _ _).symm]
  by_cases hu : u = t
  · subst hu
    rw [Function.update_self, hended, hpc]
    simp only [reduceCtorEq, and_false, or_false, Option.some.injEq, Prod.mk.injEq, true_and]
    refine or_congr Iff.rfl (and_congr Iff.rfl ?_)
    exact ⟨fun h => ⟨h.1.symm, h.2.symm⟩, fun h => ⟨h.1.symm, h.2.symm⟩⟩
  · rw [Function.update_of_ne hu]
    refine (or_iff_left ?_).symm
    exact fun h => hu (congrArg Prod.fst h.1)

theorem takes (h : Answered s) {pc : Pc α} {call : Call α} {i : Nat} {r : Result α}
    (hpcs : s'.pcs = Function.update s.pcs t pc) (hcalls : s'.calls = s.calls)
    (hlog : s'.log = .acquired m t (s.calls t) :: s.log) (hbusy : s.pcs t ≠ .idle)
    (hpc : (s.pcs t).ended = none) (hended : pc.ended = some (call, .done i r))
    (hcall : call.Acquires m) : Answered s' := by
  have hnew := h.not_acquired rfl hbusy hpc
  have hiff := ended_iff hpcs hcalls hlog nofun hpc hended
  have hother : ∀ n, n ≠ m → acquired n s'.log = acquired n s.log := by
    intro n hn
    simp only [hlog, acquired, List.filterMap_cons, Entry.acquires, if_neg (Ne.symm hn)]
  have hself : acquired m s'.log = (t, s.calls t) :: acquired m s.log := by
    simp only [hlog, acquired, List.filterMap_cons, Entry.acquires, if_true]
  have hreturned : ∀ {u n call a}, .returned u n call a ∈ s'.log → .returned u n call a ∈ s.log := by
    intro u n call a hr
    rw [hlog] at hr
    exact (List.mem_cons.mp hr).resolve_left nofun
  constructor
  case nodup =>
    intro n
    by_cases hn : n = m
    · subst hn
      rw [hself]
      exact (h.nodup n).cons (hnew n)
    · rw [hother n hn]
      exact h.nodup n
  case taken =>
    have hsucceeded : ∀ n x, s'.Succeeded n x ↔ s.Succeeded n x ∨ n = m ∧ x = (t, s.calls t) := by
      intro n x
      constructor
      · rintro ⟨call', i', r', hcall', hx⟩
        obtain hx | ⟨hx, rfl, -⟩ := (hiff ..).mp hx
        · exact .inl ⟨call', i', r', hcall', hx⟩
        · exact .inr ⟨hcall'.eq hcall, hx⟩
      · rintro (⟨call', i', r', hcall', hx⟩ | ⟨rfl, hx⟩)
        · exact ⟨call', i', r', hcall', (hiff ..).mpr (.inl hx)⟩
        · exact ⟨call, i, r, hcall, (hiff ..).mpr (.inr ⟨hx, rfl, rfl⟩)⟩
    intro n x
    rw [hsucceeded, ← h.taken]
    by_cases hn : n = m
    · subst hn
      rw [hself, List.mem_cons, or_comm, and_iff_right rfl]
    · rw [hother n hn, or_iff_left fun hx => hn hx.1]
  case once =>
    exact fun u n call call' a a' hr hr' =>
      h.once u n call call' a a' (hreturned hr) (hreturned hr')
  case past =>
    intro u n call a hr
    rw [hcalls, hpcs]
    obtain hlt | ⟨heq, hidle⟩ := h.past u n call a (hreturned hr)
    · exact .inl hlt
    · have hu : u ≠ t := by
        rintro rfl
        exact hbusy hidle
      exact .inr ⟨heq, (Function.update_of_ne hu ..).trans hidle⟩

theorem tried (h : Answered s) {c : Ctx α} {k : Nat} {p : TryPc} (hpc : s.pcs t = .trying c k p)
    (hcall : c.call.Acquires m) (htried : Tried s t c k m s') : Answered s' := by
  cases htried with
  | fails _ =>
    refine h.proceeds hpc rfl rfl rfl nofun nofun fun call i r => ?_
    obtain ⟨hfailed, -⟩ | hfailed := Ctx.failed_eq (c := c.settle (.sem m)) k hcall
    · rw [hfailed]
      nofun
    · rw [hfailed]
      nofun
  | goes x _ => exact h.proceeds hpc rfl rfl rfl nofun nofun nofun
  | takes _ =>
    refine h.takes rfl rfl rfl ?_ ?_ rfl hcall
    · rw [hpc]
      nofun
    · rw [hpc]
      rfl

theorem finish (h : Answered s) {c : Ctx α} {a : Answer α} (hpc : s.pcs t = .waking c [] false a) :
    Answered { s.setPc t .idle with log := .returned t (s.calls t) c.call a :: s.log } := by
  have hlast : ∀ call a, .returned t (s.calls t) call a ∉ s.log := by
    intro call a hr
    obtain hlt | ⟨-, hidle⟩ := h.past _ _ _ _ hr
    · exact Nat.lt_irrefl _ hlt
    · cases hpc.symm.trans hidle
  constructor
  case nodup => exact h.nodup
  case taken =>
    refine h.taken_of_eq (fun _ => rfl) fun u n call i r m _ => ?_
    rw [State.Ended, State.Ended, List.mem_cons]
    change (_ ∨ _) ∨ n = s.calls u ∧ (Function.update s.pcs t .idle u).ended = _ ↔ _
    by_cases hu : u = t
    · subst hu
      rw [Function.update_self, hpc]
      simp only [Pc.ended, reduceCtorEq, and_false, or_false, Option.some.injEq, Prod.mk.injEq,
        Entry.returned.injEq, true_and]
      rw [or_comm]
      refine or_congr Iff.rfl (and_congr Iff.rfl ?_)
      exact ⟨fun hx => ⟨hx.1.symm, hx.2.symm⟩, fun hx => ⟨hx.1.symm, hx.2.symm⟩⟩
    · rw [Function.update_of_ne hu, or_iff_right fun hx => hu (Entry.returned.inj hx).1]
  case once =>
    intro u n call call' a₁ a₂ hr hr'
    obtain heq | hmem := List.mem_cons.mp hr
    · obtain ⟨rfl, rfl, rfl, rfl⟩ := Entry.returned.inj heq
      obtain heq' | hmem' := List.mem_cons.mp hr'
      · obtain ⟨-, -, rfl, rfl⟩ := Entry.returned.inj heq'
        exact ⟨rfl, rfl⟩
      · exact absurd hmem' (hlast _ _)
    · obtain heq' | hmem' := List.mem_cons.mp hr'
      · obtain ⟨rfl, rfl, -, -⟩ := Entry.returned.inj heq'
        exact absurd hmem (hlast _ _)
      · exact h.once u n call call' a₁ a₂ hmem hmem'
  case past =>
    intro u n call a' hr
    change n < s.calls u ∨ n = s.calls u ∧ Function.update s.pcs t .idle u = .idle
    obtain hr | hr := List.mem_cons.mp hr
    · obtain ⟨rfl, rfl, -, -⟩ := Entry.returned.inj hr
      exact .inr ⟨rfl, Function.update_self ..⟩
    · obtain hlt | ⟨heq, hidle⟩ := h.past u n call a' hr
      · exact .inl hlt
      · have hu : u ≠ t := by
          rintro rfl
          cases hpc.symm.trans hidle
        exact .inr ⟨heq, (Function.update_of_ne hu ..).trans hidle⟩

theorem direct (h : Answered s) (hpermits : s.Permits) {c : Ctx α} (hpc : s.pcs t = .direct c) :
    Answered (s.direct t c) := by
  obtain ⟨m, k, hcall⟩ := hpermits.at_pc hpc
  rw [State.direct_release hcall]
  refine h.goes rfl rfl (fun _ => rfl) (fun u n call a => ?_) ?_ fun call i r n _ => ?_
  · exact ⟨fun hr => (List.mem_cons.mp hr).resolve_left nofun, List.mem_cons_of_mem _⟩
  · rw [hpc]
    nofun
  · rw [hpc]
    exact iff_of_false nofun nofun

theorem step {calls : Call α → Prop} {who : Option Nat} (h : Answered s) (hpermits : s.Permits)
    (hstep : Step calls s who s') : Answered s' := by
  cases hstep with
  | begin t call start hpc _ _ => exact h.begin hpc call start
  | attempt t c k op p spurious hpc hop =>
    obtain ⟨hcalled, -, hp⟩ := hpermits.at_pc hpc
    obtain ⟨n, rfl, hcall⟩ := hcalled.ops hop
    exact h.tried hpc hcall (s.tried t c k n hp spurious)
  | drain t c cs k p alive enqFirst hpc _ => exact (hpermits.at_pc hpc).elim
  | pause t c w hpc _ => exact h.proceeds hpc rfl rfl rfl nofun nofun nofun
  | check | inner | loadFired | finalize => exact ⟨h.nodup, h.taken, h.once, h.past⟩
  | load t c w k l p enqFirst hpc _ _ =>
    obtain ⟨p', hload⟩ | ⟨b, hload⟩ := s.load_cases t c w k l p enqFirst <;> rw [hload]
    · exact h.proceeds hpc rfl rfl rfl nofun nofun nofun
    · exact h.proceeds hpc rfl rfl rfl nofun nofun nofun
  | answer t c w p start hpc _ =>
    refine h.proceeds hpc rfl rfl rfl nofun nofun fun call i r => ?_
    split
    · rw [attempt_ended]
      nofun
    · nofun
  | peek t c l count rest a hpc =>
    refine h.goes rfl rfl (fun _ => rfl) (fun _ _ _ _ => Iff.rfl) ?_ fun call i r n _ => ?_
    · rw [hpc]
      nofun
    · rw [hpc]
      split <;> rfl
  | wake t c l count rest a hpc =>
    refine h.goes rfl rfl (fun _ => rfl) (fun _ _ _ _ => Iff.rfl) ?_ fun call i r n _ => ?_
    · rw [hpc]
      nofun
    · rw [hpc]
      rfl
  | direct t c hpc => exact h.direct hpermits hpc
  | finish t c a hpc _ => exact h.finish hpc

end Answered

/-! ### The semaphores of a program -/

/-- What is kept of the permits of the semaphores, which had `w` at the start.  Who has an
answer, and who took a permit, is told by coroutine and number of its call. -/
structure PermitsKept (w : Words α) (s : State α) : Prop where
  count : ∀ m, {x | s.Succeeded m x}.Finite ∧
    s.words.counts m = w.counts m + released m s.log - {x | s.Succeeded m x}.ncard
  nonneg : ∀ m, 0 ≤ s.words.counts m
  cancelled : ∀ t n call m, .returned t n call .cancelled ∈ s.log → .acquired m t n ∉ s.log
  parked : s.Quiet → ∀ t m, s.Parked t (.sem m) → s.words.counts m ≤ 0

theorem mem_acquired {m t n : Nat} {log : List (Entry α)} (h : .acquired m t n ∈ log) :
    (t, n) ∈ acquired m log := by
  refine List.mem_filterMap.mpr ⟨_, h, ?_⟩
  rw [Entry.acquires, if_pos rfl]

theorem Answered.succeeded {s : State α} (h : Answered s) (m : Nat) :
    {x | s.Succeeded m x} = ↑(acquired m s.log).toFinset := by
  ext x
  rw [Set.mem_ofPred_eq, ← h.taken, Finset.mem_coe, List.mem_toFinset]

theorem Answered.cancelled {s : State α} (h : Answered s) {t n m : Nat} {call : Call α}
    (hr : .returned t n call .cancelled ∈ s.log) : .acquired m t n ∉ s.log := by
  intro hmem
  obtain ⟨call', i, r, -, hr' | ⟨hn, hx⟩⟩ := (h.taken m _).mp (mem_acquired hmem)
  · cases (h.once _ _ _ _ _ _ hr hr').2
  · -- it has returned, so its coroutine is not in it
    obtain hlt | ⟨-, hidle⟩ := h.past _ _ _ _ hr
    · exact absurd hn (Nat.ne_of_lt hlt)
    · change (s.pcs t).ended = _ at hx
      rw [hidle] at hx
      cases hx

structure Kept (w : Words α) (s : State α) : Prop where
  seated : Seated s
  permits : s.Permits
  books : ∀ m, s.Books m
  counted : Counted w s
  answered : Answered s

theorem kept_of_runs {ok : State α → Nat → Prop} {w : Words α} {s : State α}
    (hnew : ∀ m, 0 ≤ w.counts m) (h : Runs Call.Permits ok w s) : Kept w s := by
  induction h with
  | start => exact ⟨seated_new w, fun _ => trivial, State.books_new w, counted_new hnew, answered_new w⟩
  | step _ hstep _ ih =>
    exact ⟨ih.seated.step hstep, ih.permits.step (fun _ => id) hstep,
      fun m => (ih.books m).step ih.seated ih.permits hstep, ih.counted.step ih.permits hstep,
      ih.answered.step ih.permits hstep⟩

/-- Coroutines that call `acquire`, `try_acquire` and `release` of any semaphores, and are
cancelled at any time.  The counts are integers, for 32 bits that do not overflow. -/
theorem permits_kept {ok : State α → Nat → Prop} {w : Words α} {s : State α}
    (hnew : w.New) (h : Runs Call.Permits ok w s) : PermitsKept w s := by
  have hkept := kept_of_runs hnew.counts h
  constructor
  case count =>
    intro m
    have hset := hkept.answered.succeeded m
    have hcard : {x | s.Succeeded m x}.ncard = (acquired m s.log).length := by
      rw [hset, Set.ncard_coe_finset, List.toFinset_card_of_nodup (hkept.answered.nodup m)]
    refine ⟨?_, ?_⟩
    · rw [hset]
      exact Finset.finite_toSet _
    · rw [hcard]
      exact hkept.counted.counts m
  case nonneg => exact hkept.counted.nonneg
  case cancelled => exact fun t n call m => hkept.answered.cancelled
  case parked =>
    exact fun hquiet t m => hquiet.nothing hkept.seated hkept.permits (hkept.books m)

/-- A semaphore with one permit, which coroutine 0 takes; coroutine 1 waits for it, is woken
by the `release` of coroutine 0, and takes it. -/
theorem permit_handed_on : ∃ s : State Unit, s.words.counts 0 = 0 ∧ s.Succeeded 0 (1, 1) ∧
    PermitsKept ⟨fun _ => ⟨.ring 2 ⟨.new, fun _ => .ret .none⟩, false⟩, fun _ => ⟨false, false⟩,
      fun _ => 1⟩ s := by
  let w : Words Unit := ⟨fun _ => ⟨.ring 2 ⟨.new, fun _ => .ret .none⟩, false⟩,
    fun _ => ⟨false, false⟩, fun _ => 1⟩
  have hnew : w.New := ⟨fun _ => .inl ⟨2, le_rfl, rfl⟩, fun _ => rfl, fun _ => Int.one_nonneg⟩
  have h₀ : Runs Call.Permits (fun _ _ => True) w (.new w) := .start
  have h₁ := h₀.free (.begin 0 (.plain (.acquire 0)) 0 rfl ⟨nofun, trivial⟩ trivial)
  have h₂ := h₁.free (.attempt 0 _ 0 (.acquire 0) .load false rfl rfl)
  have h₃ := h₂.free (.attempt 0 _ 0 (.acquire 0) (.cas 1) false rfl rfl)
  have h₄ := h₃.free (.finish 0 _ _ rfl fun _ => rfl)
  have h₅ := h₄.free (.begin 1 (.plain (.acquire 0)) 0 rfl ⟨nofun, trivial⟩ trivial)
  have h₆ := h₅.free (.attempt 1 _ 0 (.acquire 0) .load false rfl rfl)
  have h₇ := h₆.free (.pause 1 _ _ rfl rfl)
  have h₈ := h₇.free (.check 1 _ _ .first rfl rfl)
  have h₉ := h₈.free (.inner _ (.attach 1 _ 0 rfl))
  have h₁₀ := h₉.free (.load 1 _ _ 0 (.sem 0) .first false rfl rfl rfl)
  have h₁₁ := h₁₀.free (.inner _ (.arm 1 _ rfl))
  have h₁₂ := h₁₁.free (.begin 0 (.release 0 1) 0 rfl le_rfl trivial)
  have h₁₃ := h₁₂.free (.direct 0 _ rfl)
  have h₁₄ := h₁₃.free (.peek 0 _ (.sem 0) (some 1) [] .finished rfl)
  have h₁₅ := h₁₄.free (.wake 0 _ (.sem 0) (some 1) [] .finished rfl)
  have h₁₆ := h₁₅.free (.finish 0 _ _ rfl fun _ => rfl)
  have h₁₇ := h₁₆.free (.inner _ (.resume 1 _ rfl Nat.one_pos))
  have h₁₈ := h₁₇.free (.inner _ (.resumed 1 _ rfl))
  have h₁₉ := h₁₈.free (.answer 1 _ _ .first 0 rfl rfl)
  have h₂₀ := h₁₉.free (.attempt 1 _ 0 (.acquire 0) .load false rfl rfl)
  have h₂₁ := h₂₀.free (.attempt 1 _ 0 (.acquire 0) (.cas 1) false rfl rfl)
  have h₂₂ := h₂₁.free (.finish 1 _ _ rfl fun _ => rfl)
  exact ⟨_, rfl, ⟨.plain (.acquire 0), 0, .passed, .inl rfl, .inl (.head _)⟩, permits_kept hnew h₂₂⟩

end Uvent.Sync.Primitives
