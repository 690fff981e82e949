import Mathlib.Algebra.GroupWithZero.Nat
import Uvent.Sync.CallSeats
import Uvent.Sync.WakeLines

/-!
# The wakes of the semaphores

Coroutines that call `acquire`, `try_acquire` and `release`.  As long as one of them waits at
a semaphore, every permit that can be had is owed to the line: by a `release` that has not
woken yet, or by a coroutine that was woken and has not been back at the count.
-/

namespace Uvent.Sync.Primitives

open Uvent.Lib Uvent.Sync.Suspension

variable {α : Type}

def Call.Permits : Call α → Prop
  | .plain (.acquire _) | .once (.acquire _) | .release _ _ => True
  | _ => False

namespace Pc

def owed : Pc α → List ListId
  | .trying c .. | .draining c .. | .pausing c _ | .waiting c .. => c.owed
  | _ => []

def wait : Pc α → Option (Wait ListId)
  | .waiting _ w _ => some w
  | _ => none

def debt (l : ListId) : Pc α → Nat
  | .waking _ todo _ _ => (todo.map fun x => if x.1 = l then x.2.getD 0 else 0).sum
  | _ => 0

/-- Where a coroutine can be in such a call.  It has taken nothing it was woken for when it
waits, and a wake finds it only in `acquire`. -/
def Permits : Pc α → Prop
  | .idle => True
  | .trying c _ p => c.call.Permits ∧ (∀ l ∈ c.owed, c.call.wait = .op l) ∧
      (p = .load ∨ ∃ x, 0 < x ∧ p = .cas x)
  | .draining .. => False
  | .pausing c w | .waiting c w _ => c.call.Permits ∧ c.owed = [] ∧ ∃ m, w = .op (.sem m) ∧
      c.call = .plain (.acquire m)
  | .direct c => ∃ m k, c.call = .release m k
  | .waking c todo _ _ => c.call.Permits ∧ ∀ x ∈ todo, x.2 ≠ none

end Pc

/-- What the calls tell the line of list `l` where `loose` can be had. -/
def State.outside {ι : Type} (s : State α) (l : ListId) (loose : ι → Prop) : Outside ListId ι where
  now := fun _ => false
  loose := loose
  debt t := (s.pcs t).debt l
  owed t := l ∈ (s.pcs t).owed
  wait t := (s.pcs t).wait

def State.permits (s : State α) (m x : Nat) : Prop := (x : Int) < s.words.counts m

def State.ledger (s : State α) (m : Nat) : Ledger Nat Nat Node :=
  s.waits.ledger (.sem m) (s.outside (.sem m) (s.permits m))

@[simp] theorem Words.setCount_self (w : Words α) (m : Nat) (x : Int) :
    (w.setCount m x).counts m = x := Function.update_self ..

theorem Words.setCount_of_ne (w : Words α) {m n : Nat} (h : n ≠ m) (x : Int) :
    (w.setCount m x).counts n = w.counts n := Function.update_of_ne h ..

inductive Tried (s : State α) (t : Nat) (c : Ctx α) (k m : Nat) : State α → Prop where
  | fails (h : s.words.counts m ≤ 0) : Tried s t c k m (s.setPc t ((c.settle (.sem m)).failed k))
  | goes (x : Int) (h : 0 < x) : Tried s t c k m (s.setPc t (.trying c k (.cas x)))
  | takes (h : 0 < s.words.counts m) : Tried s t c k m
      { s.setPc t (.waking c [] false (.done (c.index k) .passed)) with
        words := s.words.setCount m (s.words.counts m - 1),
        log := .acquired m t (s.calls t) :: s.log }

/-- `try_acquire` gives up at a count that is not positive, and takes from a positive one. -/
theorem State.tried (s : State α) (t : Nat) (c : Ctx α) (k m : Nat) {p : TryPc}
    (hp : p = .load ∨ ∃ x, 0 < x ∧ p = .cas x) (spurious : Bool) :
    Tried s t c k m (s.attempt t c k (.acquire m) p spurious) := by
  obtain rfl | ⟨x, hx, rfl⟩ := hp
  · by_cases hcount : s.words.counts m ≤ 0
    · simp only [State.attempt, Op.tryStep, if_pos hcount]
      exact .fails hcount
    · simp only [State.attempt, Op.tryStep, if_neg hcount]
      exact .goes _ (Int.not_le.mp hcount)
  · by_cases hsame : s.words.counts m = x ∧ spurious = false
    · simp only [State.attempt, Op.tryStep, if_pos hsame]
      obtain ⟨rfl, -⟩ := hsame
      exact .takes hx
    · by_cases hcount : s.words.counts m ≤ 0
      · simp only [State.attempt, Op.tryStep, if_neg hsame, if_pos hcount]
        exact .fails hcount
      · simp only [State.attempt, Op.tryStep, if_neg hsame, if_neg hcount]
        exact .goes _ (Int.not_le.mp hcount)

/-! ### Where the coroutines are -/

def State.Permits (s : State α) : Prop := ∀ t, (s.pcs t).Permits

theorem Call.Permits.ops {call : Call α} (h : call.Permits) {op : Op α} {k : Nat}
    (hop : call.ops[k]? = some op) : ∃ m, op = .acquire m ∧
      (call = .plain (.acquire m) ∨ call = .once (.acquire m)) := by
  cases call with
  | plain op' =>
    cases op' with
    | acquire m =>
      rw [Call.ops, List.getElem?_singleton] at hop
      split at hop
      · cases hop
        exact ⟨m, rfl, .inl rfl⟩
      · cases hop
    | send | recv | wait | sleep => exact h.elim
  | once op' =>
    cases op' with
    | acquire m =>
      rw [Call.ops, List.getElem?_singleton] at hop
      split at hop
      · cases hop
        exact ⟨m, rfl, .inr rfl⟩
      · cases hop
    | send | recv | wait | sleep => exact h.elim
  | release m k => cases hop
  | select | selectRecv | close | set | reset => exact h.elim

theorem Wait.place_op {l l' : ListId} {k : Nat}
    (h : (Wait.op l).places[k]? = some (.listed l')) : l' = l := by
  rw [Wait.places, List.getElem?_singleton] at h
  split at h
  · cases h
    rfl
  · cases h

theorem Ctx.attempt_acquire {c : Ctx α} {m : Nat} (hcall : c.call = .plain (.acquire m)) :
    c.attempt 0 = .trying c 0 .load := by
  have hindex : c.index 0 = 0 := by
    rw [Ctx.index, hcall]
    exact Nat.mod_one _
  rw [Ctx.attempt, hindex, hcall]
  rfl

theorem Ctx.attempt_permits {c : Ctx α} (h : c.call.Permits)
    (howed : ∀ l ∈ c.owed, c.call.wait = .op l) (k : Nat) : (c.attempt k).Permits := by
  rw [Ctx.attempt]
  split
  · rename_i op hop
    obtain ⟨m, rfl, -⟩ := h.ops hop
    exact ⟨h, howed, .inl rfl⟩
  · trivial

/-- The coroutine has found nothing at the semaphore of its call, so it owes nothing. -/
theorem Ctx.settle_owed {c : Ctx α} {m : Nat}
    (hcall : c.call = .plain (.acquire m) ∨ c.call = .once (.acquire m))
    (howed : ∀ l ∈ c.owed, c.call.wait = .op l) : (c.settle (.sem m)).owed = [] := by
  rw [Ctx.settle, List.filter_eq_nil_iff]
  intro l hl
  have hwait := howed l hl
  obtain hcall | hcall := hcall
  · rw [hcall] at hwait
    cases hwait
    simp
  · rw [hcall] at hwait
    cases hwait

theorem Ctx.failed_eq {c : Ctx α} {m : Nat} (k : Nat)
    (hcall : c.call = .plain (.acquire m) ∨ c.call = .once (.acquire m)) :
    c.failed k = .pausing c (.op (.sem m)) ∧ c.call = .plain (.acquire m) ∨
      c.failed k = .waking c [] false .refused := by
  obtain hcall | hcall := hcall
  · refine .inl ⟨?_, hcall⟩
    rw [Ctx.failed, hcall]
    exact if_neg (by simp [Call.ops])
  · refine .inr ?_
    rw [Ctx.failed, hcall]
    exact if_neg (by simp [Call.ops])

namespace State.Permits

variable {s s' : State α} {t : Nat}

theorem goes (h : s.Permits) {pc : Pc α} (hpcs : s'.pcs = Function.update s.pcs t pc)
    (hpc : pc.Permits) : s'.Permits := by
  intro u
  rw [hpcs]
  by_cases hu : u = t
  · subst hu
    rwa [Function.update_self]
  · rw [Function.update_of_ne hu]
    exact h u

theorem at_pc (h : s.Permits) {pc : Pc α} (hpc : s.pcs t = pc) : pc.Permits := hpc ▸ h t

theorem begin (h : s.Permits) {call : Call α} (hcall : call.Permits) (start : Nat) :
    (s.begin t call start).Permits := by
  refine h.goes rfl ?_
  split
  · rename_i hops
    cases call with
    | release m k => exact ⟨m, k, rfl⟩
    | plain | once => cases hops
    | select | selectRecv | close | set | reset => exact hcall.elim
  · exact Ctx.attempt_permits hcall (fun _ hl => (List.not_mem_nil hl).elim) 0

theorem tried (h : s.Permits) {c : Ctx α} {k m : Nat} {p : TryPc} (hpc : s.pcs t = .trying c k p)
    (hcall : c.call = .plain (.acquire m) ∨ c.call = .once (.acquire m))
    (htried : Tried s t c k m s') : s'.Permits := by
  obtain ⟨hpermits, howed, -⟩ := h.at_pc hpc
  cases htried with
  | fails _ =>
    refine h.goes rfl ?_
    obtain ⟨hfailed, hplain⟩ | hfailed := Ctx.failed_eq (c := c.settle (.sem m)) k hcall
    · rw [hfailed]
      exact ⟨hpermits, Ctx.settle_owed hcall howed, m, rfl, hplain⟩
    · rw [hfailed]
      exact ⟨hpermits, nofun⟩
  | goes x hx => exact h.goes rfl ⟨hpermits, howed, .inr ⟨x, hx, rfl⟩⟩
  | takes _ => exact h.goes rfl ⟨hpermits, nofun⟩

/-- A coroutine that comes back looks first for what it was woken for. -/
theorem wokenFor_op {m : Nat} {winner : Winner} {l : ListId}
    (h : l ∈ wokenFor (.op (.sem m)) winner) : l = .sem m := by
  cases winner with
  | index k =>
    cases k with
    | zero => exact List.mem_singleton.mp h
    | succ k => cases h
  | none | cancelled => cases h

theorem answer (h : s.Permits) {c : Ctx α} {w : Wait ListId} {p : CheckPc}
    (hpc : s.pcs t = .waiting c w p) (start : Nat) : (s.answer t c w start).Permits := by
  obtain ⟨hpermits, howed, m, rfl, hcall⟩ := h.at_pc hpc
  refine h.goes rfl ?_
  split
  · apply Ctx.attempt_permits
    · exact hpermits
    · intro l hl
      obtain hl | hl := List.mem_append.mp hl
      · obtain rfl := wokenFor_op hl
        change c.call.wait = _
        rw [hcall]
        rfl
      · rw [howed] at hl
        cases hl
  · exact ⟨hpermits, fun _ hx => (List.not_mem_nil hx).elim⟩

theorem load (h : s.Permits) {c : Ctx α} {w : Wait ListId} {k : Nat} {l : ListId} {p : CheckPc}
    (hpc : s.pcs t = .waiting c w p) (enqFirst : Bool) :
    (s.load t c w k l p enqFirst).Permits := by
  obtain ⟨hpermits, howed, hcall⟩ := h.at_pc hpc
  obtain ⟨p', hload⟩ | ⟨b, hload⟩ := s.load_cases t c w k l p enqFirst <;> rw [hload]
  · exact h.goes rfl ⟨hpermits, howed, hcall⟩
  · refine h.goes rfl ?_
    split
    · refine ⟨hpermits, ?_, hcall⟩
      rw [Ctx.settle, howed]
      rfl
    · exact ⟨hpermits, howed, hcall⟩

theorem direct (h : s.Permits) {c : Ctx α} (hpc : s.pcs t = .direct c) :
    (s.direct t c).Permits := by
  obtain ⟨m, k, hcall⟩ := h.at_pc hpc
  rw [State.direct_release hcall]
  refine h.goes rfl ⟨?_, ?_⟩
  · rw [hcall]
    trivial
  · intro x hx
    rw [List.mem_singleton.mp hx]
    nofun

theorem step {calls : Call α → Prop} {who : Option Nat} (h : s.Permits)
    (hcalls : ∀ call, calls call → call.Permits) (hstep : Step calls s who s') : s'.Permits := by
  cases hstep with
  | begin t call start _ _ hcall => exact h.begin (hcalls call hcall) start
  | attempt t c k op p spurious hpc hop =>
    obtain ⟨hpermits, -, hp⟩ := h.at_pc hpc
    obtain ⟨m, rfl, hcall⟩ := hpermits.ops hop
    exact h.tried hpc hcall (s.tried t c k m hp spurious)
  | drain t c cs k p alive enqFirst hpc _ => exact (h.at_pc hpc).elim
  | pause t c w hpc _ =>
    obtain ⟨hpermits, howed, hcall⟩ := h.at_pc hpc
    exact h.goes rfl ⟨hpermits, howed, hcall⟩
  | check | inner | loadFired | finalize => exact h
  | load t c w k l p enqFirst hpc _ _ => exact h.load hpc enqFirst
  | answer t c w p start hpc _ => exact h.answer hpc start
  | peek t c l count rest a hpc =>
    obtain ⟨hpermits, htodo⟩ := h.at_pc hpc
    refine h.goes rfl ?_
    split
    · exact ⟨hpermits, fun x hx => htodo x (List.mem_cons_of_mem _ hx)⟩
    · exact ⟨hpermits, htodo⟩
  | wake t c l count rest a hpc =>
    obtain ⟨hpermits, htodo⟩ := h.at_pc hpc
    exact h.goes rfl ⟨hpermits, fun x hx => htodo x (List.mem_cons_of_mem _ hx)⟩
  | direct t c hpc => exact h.direct hpc
  | finish t c a hpc _ => exact h.goes rfl trivial

end State.Permits

/-! ### What is owed to a semaphore -/

namespace State

variable {s s' : State α} {t m : Nat}

def Books (s : State α) (m : Nat) : Prop := (s.ledger m).Books Node.coro

theorem books_new (w : Words α) (m : Nat) : (State.new w).Books m := .of_unchecked nofun

theorem Books.outside (h : s.Books m) (hwaits : s'.waits = s.waits)
    (htrades : (s.ledger m).Trades (s'.ledger m)) : s'.Books m := by
  refine h.step ?_ htrades
  rw [ledger, ledger, hwaits]
  exact Suspension.State.fades_outside rfl

theorem debt_le_update {pcs : Nat → Pc α} {pc : Pc α} {l : ListId}
    (hdebt : (pcs t).debt l ≤ pc.debt l) (u : Nat) :
    (pcs u).debt l ≤ (Function.update pcs t pc u).debt l := by
  by_cases hu : u = t
  · subst hu
    rwa [Function.update_self]
  · rw [Function.update_of_ne hu]

theorem may_of_update {pc : Pc α} {u : Nat} (hu : u ≠ t)
    (hpcs : s'.pcs = Function.update s.pcs t pc) (hcoros : s'.waits.coros u = s.waits.coros u)
    (h : (s.ledger m).may u) : (s'.ledger m).may u := by
  have hpc : s'.pcs u = s.pcs u := by
    rw [hpcs, Function.update_of_ne hu]
  obtain howed | ⟨w, k, hwait, hwinner, hplace⟩ := h
  · refine .inl ?_
    change _ ∈ (s'.pcs u).owed
    rw [hpc]
    exact howed
  · refine .inr ⟨w, k, ?_, ?_, hplace⟩
    · change (s'.pcs u).wait = _
      rw [hpc]
      exact hwait
    · rw [hcoros, hwinner]

theorem Books.goes (h : s.Books m) {pc : Pc α} (hwaits : s'.waits = s.waits)
    (hpcs : s'.pcs = Function.update s.pcs t pc) (hcounts : s'.words.counts m = s.words.counts m)
    (hdebt : (s.pcs t).debt (.sem m) ≤ pc.debt (.sem m))
    (hmay : (s.ledger m).may t → (s'.ledger m).may t) : s'.Books m := by
  refine h.outside hwaits (.same (fun x hx => ?_) (fun u => ?_) fun u hu => ?_)
  · change (x : Int) < s'.words.counts m at hx
    rwa [hcounts] at hx
  · change _ ≤ (s'.pcs u).debt (.sem m)
    rw [hpcs]
    exact debt_le_update hdebt u
  · by_cases hut : u = t
    · subst hut
      exact hmay hu
    · exact may_of_update hut hpcs (by rw [hwaits]) hu

theorem not_may {pc : Pc α} (hpc : s.pcs t = pc) (howed : pc.owed = []) (hwait : pc.wait = none) :
    ¬(s.ledger m).may t := by
  rintro (h | ⟨w, k, h, -, -⟩)
  · change _ ∈ (s.pcs t).owed at h
    rw [hpc, howed] at h
    cases h
  · change (s.pcs t).wait = _ at h
    rw [hpc, hwait] at h
    cases h

theorem Books.apart (h : s.Books m) {pc pc' : Pc α} (hpc : s.pcs t = pc)
    (hwaits : s'.waits = s.waits) (hpcs : s'.pcs = Function.update s.pcs t pc')
    (hcounts : s'.words.counts m = s.words.counts m)
    (hdebt : pc.debt (.sem m) ≤ pc'.debt (.sem m)) (howed : pc.owed = []) (hwait : pc.wait = none) :
    s'.Books m :=
  h.goes hwaits hpcs hcounts (hpc ▸ hdebt) fun hmay => absurd hmay (not_may hpc howed hwait)

theorem Books.begin (h : s.Books m) (hpc : s.pcs t = .idle) (call : Call α) (start : Nat) :
    (s.begin t call start).Books m :=
  h.apart hpc rfl rfl rfl (Nat.zero_le _) rfl rfl

/-- A coroutine that tries was woken through what it owes. -/
theorem may_trying {c : Ctx α} {k : Nat} {p : TryPc} (hpc : s.pcs t = .trying c k p) :
    (s.ledger m).may t ↔ .sem m ∈ c.owed := by
  constructor
  · rintro (h | ⟨w, k, h, -, -⟩)
    · change _ ∈ (s.pcs t).owed at h
      rwa [hpc] at h
    · change (s.pcs t).wait = _ at h
      rw [hpc] at h
      cases h
  · intro h
    refine .inl ?_
    change _ ∈ (s.pcs t).owed
    rwa [hpc]

theorem Books.tried (h : s.Books m) (hpermits : s.Permits) {c : Ctx α} {k n : Nat} {p : TryPc}
    (hpc : s.pcs t = .trying c k p)
    (hcall : c.call = .plain (.acquire n) ∨ c.call = .once (.acquire n))
    (htried : Tried s t c k n s') : s'.Books m := by
  obtain ⟨-, howed, -⟩ := hpermits.at_pc hpc
  have hdebt : (s.pcs t).debt (.sem m) = 0 := by
    rw [hpc]
    rfl
  -- it was woken at the semaphore of its call, if at all
  have hown : (s.ledger m).may t → m = n := by
    intro hmay
    have hwait := howed _ ((may_trying hpc).mp hmay)
    obtain hcall | hcall := hcall
    · rw [hcall] at hwait
      cases hwait
      rfl
    · rw [hcall] at hwait
      cases hwait
  cases htried with
  | fails hcount =>
    by_cases hm : m = n
    · subst hm
      refine h.outside rfl (.nothing fun x hx => ?_)
      change (x : Int) < s.words.counts m at hx
      omega
    · refine h.goes rfl rfl rfl ?_ fun hmay => absurd (hown hmay) hm
      rw [hdebt]
      exact Nat.zero_le _
  | goes x hx =>
    refine h.goes rfl rfl rfl ?_ fun hmay => ?_
    · rw [hdebt]
      exact Nat.zero_le _
    · rw [may_trying (Function.update_self ..)]
      exact (may_trying hpc).mp hmay
  | takes hcount =>
    by_cases hm : m = n
    · subst hm
      refine h.outside rfl (.take (s.words.counts m - 1).toNat t ?_ (fun x hx => ?_) (fun u => ?_)
        fun u hu => may_of_update hu rfl rfl)
      · change (_ : Int) < s.words.counts m
        omega
      · change (x : Int) < (s.words.setCount m (s.words.counts m - 1)).counts m at hx
        rw [Words.setCount_self] at hx
        change (x : Int) < s.words.counts m ∧ _
        omega
      · exact debt_le_update (hdebt ▸ Nat.zero_le _) u
    · refine h.goes rfl rfl (Words.setCount_of_ne _ hm _) ?_ fun hmay => absurd (hown hmay) hm
      rw [hdebt]
      exact Nat.zero_le _

theorem Books.inner (h : s.Books m) (hinv : Inv s.waits) {waits : Suspension.State ListId}
    (hstep : Inner s.waits waits) : State.Books { s with waits := waits } m := by
  obtain ⟨u, c', hshifts⟩ := hinv.shifts hstep
  exact hinv.books_shifts hshifts (fun _ => rfl) h

theorem Books.pause (h : s.Books m) (hinv : Inv s.waits) (hpermits : s.Permits) {c : Ctx α}
    {w : Wait ListId} (hpc : s.pcs t = .pausing c w)
    (hrun : (s.waits.coros t).phase = .running) :
    State.Books { s.setPc t (.waiting c w .first) with
      waits := s.waits.set t ((s.waits.coros t).start w) } m := by
  obtain ⟨-, howed, -⟩ := hpermits.at_pc hpc
  refine h.step (hinv.fades_apart (t := t) (fun _ _ => rfl) fun j => ?_)
    (.same (fun _ => id) (fun u => ?_) fun u hu => ?_)
  · rw [hrun]
    rfl
  · refine debt_le_update ?_ u
    rw [hpc]
    exact Nat.zero_le _
  · by_cases hut : u = t
    · subst hut
      exact absurd hu (not_may hpc howed rfl)
    · exact may_of_update hut rfl (Function.update_of_ne hut ..) hu

theorem Books.check (h : s.Books m) (hinv : Inv s.waits) {w : Wait ListId}
    (hphase : (s.waits.coros t).phase = .check w) :
    State.Books { s with waits := s.waits.set t (if (s.waits.coros t).requested
      then (s.waits.coros t).ownCancel
      else { s.waits.coros t with phase := w.attachFrom 0 }) } m := by
  refine h.step (hinv.fades_apart (t := t) (fun _ _ => rfl) fun j => ?_)
    (.same (fun _ => id) (fun _ => le_rfl) fun u hu => ?_)
  · rw [hphase]
    rfl
  · refine hu.imp id fun ⟨w', k, hwait, hwinner, hplace⟩ => ⟨w', k, hwait, ?_, hplace⟩
    change (Function.update s.waits.coros t _ u).winner = _
    by_cases hut : u = t
    · subst hut
      rw [Function.update_self]
      split <;> exact hwinner
    · rw [Function.update_of_ne hut]
      exact hwinner

/-- The check of `attach` finds no permit, or the coroutine does not wait. -/
theorem Books.load (h : s.Books m) (hinv : Inv s.waits) (hpermits : s.Permits) {c : Ctx α}
    {w : Wait ListId} {k : Nat} {l : ListId} {p : CheckPc} (hpc : s.pcs t = .waiting c w p)
    (hphase : (s.waits.coros t).phase = .look w k) (hplace : w.places[k]? = some (.listed l))
    (enqFirst : Bool) : (s.load t c w k l p enqFirst).Books m := by
  obtain ⟨-, howed, n, rfl, -⟩ := hpermits.at_pc hpc
  obtain rfl := Wait.place_op hplace
  simp only [State.load, checkStep]
  by_cases hnone : m = n ∧ s.words.counts n ≤ 0
  · obtain ⟨rfl, hnone⟩ := hnone
    refine .of_nothing fun x hx => ?_
    change (x : Int) < s.words.counts m at hx
    omega
  · refine h.step (hinv.fades_set (t := t) (fun _ _ => rfl) fun j hj hwinner => ⟨hwinner, ?_⟩)
      (.same (fun _ => id) (fun u => debt_le_update ?_ u) fun u hu => ?_)
    · -- a coroutine that waits at semaphore `m` has found a permit
      rw [hphase] at hj
      have hfits : (Phase.look (Wait.op (ListId.sem n)) k).Fits (.op (.sem n)) := rfl
      have hat := Wait.place_op (hfits.place hj)
      have hpositive : ¬s.words.counts n ≤ 0 := fun hle => hnone ⟨ListId.sem.inj hat, hle⟩
      rw [decide_eq_false hpositive]
      exact fun hsees => hsees.elim
    · rw [hpc]
      exact Nat.zero_le _
    · by_cases hut : u = t
      · subst hut
        obtain hmem | ⟨w', j, hwait, hwinner, hat⟩ := hu
        · change _ ∈ (s.pcs u).owed at hmem
          rw [hpc] at hmem
          change _ ∈ c.owed at hmem
          rw [howed] at hmem
          cases hmem
        · refine .inr ⟨w', j, ?_, ?_, hat⟩
          · change (s.pcs u).wait = _ at hwait
            rw [hpc] at hwait
            change (Function.update s.pcs u _ u).wait = _
            rw [Function.update_self]
            exact hwait
          · change (Function.update s.waits.coros u _ u).winner = _
            rw [Function.update_self]
            exact hwinner
      · exact may_of_update hut rfl (Function.update_of_ne hut ..) hu

theorem Books.answer (h : s.Books m) (hseated : Seated s) (hpermits : s.Permits) {c : Ctx α}
    {w : Wait ListId} {p : CheckPc} (hpc : s.pcs t = .waiting c w p)
    (hphase : (s.waits.coros t).phase = .running) (start : Nat) :
    (s.answer t c w start).Books m := by
  obtain ⟨-, howed, n, rfl, hcall⟩ := hpermits.at_pc hpc
  have hseat := hseated.sits t
  rw [hpc] at hseat
  refine h.goes rfl rfl rfl ?_ fun hmay => ?_
  · rw [hpc]
    exact Nat.zero_le _
  · obtain hmem | ⟨w', j, hwait, hwinner, hat⟩ := hmay
    · change _ ∈ (s.pcs t).owed at hmem
      rw [hpc] at hmem
      change _ ∈ c.owed at hmem
      rw [howed] at hmem
      cases hmem
    · change (s.pcs t).wait = _ at hwait
      rw [hpc] at hwait
      obtain rfl := Option.some.inj hwait
      have hanswer : (s.waits.coros t).answer = true := by
        by_contra hno
        exact hseat.answer hphase (by simpa using hno) j hwinner
      refine .inl ?_
      change _ ∈ (Function.update s.pcs t _ t).owed
      rw [Function.update_self, if_pos hanswer, Ctx.attempt_acquire]
      · refine List.mem_append_left _ ?_
        have hwoken : wokenFor (.op (.sem n)) (s.waits.coros t).winner = [.sem m] := by
          rw [hwinner]
          simp only [wokenFor, hat]
        rw [hwoken]
        exact List.mem_singleton_self _
      · exact hcall

theorem Books.peek (h : s.Books m) {c : Ctx α} {l : ListId} {count : Option Nat}
    {rest : List (ListId × Option Nat)} {a : Answer α}
    (hpc : s.pcs t = .waking c ((l, count) :: rest) false a) :
    (s.setPc t (if s.waits.lists l = [] then .waking c rest false a
      else .waking c ((l, count) :: rest) true a)).Books m := by
  by_cases hempty : s.waits.lists (.sem m) = []
  · refine .of_unchecked fun n hn => ?_
    change n ∈ s.waits.lists (.sem m) at hn
    rw [hempty] at hn
    cases hn
  · refine h.apart hpc rfl rfl rfl ?_ rfl rfl
    split
    · rename_i hl
      have hne : l ≠ .sem m := by
        rintro rfl
        exact hempty hl
      rw [Pc.debt, Pc.debt, List.map_cons, List.sum_cons, if_neg hne, Nat.zero_add]
    · exact le_rfl

/-- Whoever has a node in a list is in the suspension of its call. -/
theorem line (h : Seated s) (l : ListId) : s.waits.Seated l fun u => (s.pcs u).wait := by
  intro n hn
  have hplace := h.inv.place_of_mem hn
  have hsits := h.sits n.coro
  cases hpc : s.pcs n.coro with
  | waiting c w p =>
    rw [hpc] at hsits
    exact ⟨w, congrArg Pc.wait hpc, hsits.fits.place hplace⟩
  | idle | trying | draining | pausing | direct | waking =>
    rw [hpc] at hsits
    change (s.waits.coros n.coro).phase = .running at hsits
    rw [hsits] at hplace
    cases hplace

theorem Books.wake (h : s.Books m) (hseated : Seated s) (hpermits : s.Permits) {c : Ctx α}
    {l : ListId} {count : Option Nat} {rest : List (ListId × Option Nat)} {a : Answer α}
    (hpc : s.pcs t = .waking c ((l, count) :: rest) true a) :
    State.Books { s.setPc t (.waking c rest false a) with
      waits := s.waits.wake l (count.getD (s.waits.lists l).length) } m := by
  obtain ⟨-, htodo⟩ := hpermits.at_pc hpc
  obtain ⟨k, rfl⟩ := Option.ne_none_iff_exists'.mp (htodo _ List.mem_cons_self)
  have hseated' : Seated (s.setPc t (.waking c rest false a)) :=
    hseated.goes rfl rfl (hseated.awake hpc nofun)
  by_cases hl : l = .sem m
  · subst hl
    refine Suspension.State.books_wakeLoop (t := t) le_rfl (line hseated' (.sem m)) ?_
    refine h.step (Suspension.State.fades_outside rfl)
      (.same (fun _ => id) (fun u => ?_) fun u hu => ?_)
    · change (s.pcs u).debt (.sem m) ≤
        (Function.update s.pcs t (.waking c rest false a) u).debt (.sem m) + if u = t then k else 0
      by_cases hut : u = t
      · subst hut
        rw [Function.update_self, if_pos rfl, hpc, Pc.debt, Pc.debt, List.map_cons, List.sum_cons,
          if_pos rfl, Nat.add_comm]
        exact le_rfl
      · rw [Function.update_of_ne hut, if_neg hut, Nat.add_zero]
    · by_cases hut : u = t
      · subst hut
        exact absurd hu (not_may hpc rfl rfl)
      · have hmay : ((s.setPc t (.waking c rest false a)).ledger m).may u :=
          may_of_update hut rfl rfl hu
        exact hmay
  · have hgone : (s.setPc t (.waking c rest false a)).Books m := by
      refine h.apart hpc rfl rfl rfl ?_ rfl rfl
      rw [Pc.debt, Pc.debt, List.map_cons, List.sum_cons, if_neg hl, Nat.zero_add]
    exact Suspension.State.books_wakeLoop_of_ne hl hgone

theorem Books.gains (h : s.Books m) (t k : Nat) :
    (s.waits.ledger (.sem m) ((s.outside (.sem m) fun x : Nat =>
      (x : Int) < s.words.counts m + k).owing t k)).Books Node.coro := by
  induction k with
  | zero =>
    refine h.step (Suspension.State.fades_outside rfl) (.same (fun x hx => ?_) (fun u => ?_) ?_)
    · change (x : Int) < s.words.counts m + (0 : Nat) at hx
      change (x : Int) < s.words.counts m
      omega
    · exact Nat.le_add_right _ _
    · exact fun _ => id
  | succ k ih =>
    refine ih.step (Suspension.State.fades_outside rfl)
      (.gain (s.words.counts m + k).toNat t (fun x hx => ?_) (fun u => ?_) fun _ => id)
    · change (x : Int) < s.words.counts m + (k + 1 : Nat) at hx
      change (x : Int) < s.words.counts m + k ∨ _
      omega
    · change (s.pcs u).debt (.sem m) + (if u = t then k else 0) + (if u = t then 1 else 0) ≤
        (s.pcs u).debt (.sem m) + if u = t then k + 1 else 0
      split <;> omega

theorem Books.direct (h : s.Books m) (hpermits : s.Permits) {c : Ctx α}
    (hpc : s.pcs t = .direct c) : (s.direct t c).Books m := by
  obtain ⟨n, k, hcall⟩ := hpermits.at_pc hpc
  rw [State.direct_release hcall]
  by_cases hm : m = n
  · subst hm
    refine (h.gains t k).step (Suspension.State.fades_outside rfl)
      (.same (fun x hx => ?_) (fun u => ?_) fun u hu => ?_)
    · change (x : Int) < (s.words.setCount m (s.words.counts m + k)).counts m at hx
      rwa [Words.setCount_self] at hx
    · change (s.pcs u).debt (.sem m) + (if u = t then k else 0) ≤ (Function.update s.pcs t
        (.waking c [(.sem m, some k)] false .finished) u).debt (.sem m)
      by_cases hut : u = t
      · subst hut
        rw [Function.update_self, if_pos rfl, hpc]
        simp [Pc.debt]
      · rw [Function.update_of_ne hut, if_neg hut, Nat.add_zero]
    · by_cases hut : u = t
      · subst hut
        exact absurd hu (not_may hpc rfl rfl)
      · have hmay : ((s.setPc t (.waking c [(.sem m, some k)] false .finished)).ledger m).may u :=
          may_of_update hut rfl rfl hu
        exact hmay
  · exact h.apart hpc rfl rfl (Words.setCount_of_ne _ hm _) (Nat.zero_le _) rfl rfl

theorem Books.step {calls : Call α → Prop} {who : Option Nat} (h : s.Books m)
    (hseated : Seated s) (hpermits : s.Permits) (hstep : Step calls s who s') : s'.Books m := by
  have hinv := hseated.inv
  cases hstep with
  | begin t call start hpc _ _ => exact h.begin hpc call start
  | attempt t c k op p spurious hpc hop =>
    obtain ⟨hcalled, -, hp⟩ := hpermits.at_pc hpc
    obtain ⟨n, rfl, hcall⟩ := hcalled.ops hop
    exact h.tried hpermits hpc hcall (s.tried t c k n hp spurious)
  | drain t c cs k p alive enqFirst hpc _ => exact (hpermits.at_pc hpc).elim
  | pause t c w hpc hphase => exact h.pause hinv hpermits hpc hphase
  | check t c w p hpc hphase => exact h.check hinv hphase
  | inner waits hinner => exact h.inner hinv hinner
  | load t c w k l p enqFirst hpc hphase hplace =>
    exact h.load hinv hpermits hpc hphase hplace enqFirst
  | loadFired t c w k p hpc hphase hplace =>
    obtain ⟨-, -, n, rfl, -⟩ := hpermits.at_pc hpc
    rw [Wait.places, List.getElem?_singleton] at hplace
    split at hplace <;> cases hplace
  | answer t c w p start hpc hphase => exact h.answer hseated hpermits hpc hphase start
  | peek t c l count rest a hpc => exact h.peek hpc
  | wake t c l count rest a hpc => exact h.wake hseated hpermits hpc
  | direct t c hpc => exact h.direct hpermits hpc
  | finalize t c a k hpc hphase htimer =>
    exact hinv.books_shifts (t := t) (.set (.stays rfl rfl rfl rfl)) (fun _ => rfl) h
  | finish t c a hpc _ => exact h.apart hpc rfl rfl rfl le_rfl rfl rfl

end State

/-! ### Nobody is left waiting -/

/-- No coroutine is running or scheduled, and no worker is about to schedule one from
`on_cancel` or `on_fire`. -/
def State.Quiet (s : State α) : Prop := ∀ t,
  (s.pcs t = .idle ∨ ∃ c w p, s.pcs t = .waiting c w p ∧ (s.waits.coros t).phase = .suspended w) ∧
    (s.waits.coros t).queued = 0 ∧ (s.waits.coros t).hookPc = .idle ∧
    ∀ k n, ((s.waits.coros t).sleepers k).timer ≠ .enqueue n

def State.Parked (s : State α) (t : Nat) (l : ListId) : Prop :=
  (s.waits.coros t).phase = .suspended (.op l)

namespace State.Quiet

variable {s : State α} {t : Nat}

theorem winner (h : s.Quiet) (hseated : Seated s) {w : Wait ListId}
    (hphase : (s.waits.coros t).phase = .suspended w) : (s.waits.coros t).winner = .none := by
  obtain ⟨-, hqueued, hhook, htimers⟩ := h t
  obtain ⟨hopen, -⟩ := (hseated.inv.coros t).at_kind
    (show (s.waits.coros t).phase.kind = .parked by rw [hphase]; rfl)
  obtain ⟨who, haccount, hwho⟩ := hopen.account
  have hzero := hopen.queued.symm.trans hqueued
  rw [hhook, hzero] at haccount
  generalize hw : (s.waits.coros t).winner = x at haccount
  cases haccount with
  | quiet => rfl
  | firing k =>
    obtain ⟨n, hn⟩ := (hwho k).mpr rfl
    exact absurd hn (htimers k n)

theorem debt (h : s.Quiet) (l : ListId) : (s.pcs t).debt l = 0 := by
  obtain hpc | ⟨c, w, p, hpc, -⟩ := (h t).1 <;> rw [hpc] <;> rfl

theorem not_may (h : s.Quiet) (hseated : Seated s) (hpermits : s.Permits) (m : Nat) :
    ¬(s.ledger m).may t := by
  obtain hpc | ⟨c, w, p, hpc, hphase⟩ := (h t).1
  · exact State.not_may hpc rfl rfl
  · obtain ⟨-, howed, -⟩ := hpermits.at_pc hpc
    rintro (hmem | ⟨w', k, -, hwinner, -⟩)
    · change _ ∈ (s.pcs t).owed at hmem
      rw [hpc] at hmem
      change _ ∈ c.owed at hmem
      rw [howed] at hmem
      cases hmem
    · cases (h.winner hseated hphase).symm.trans hwinner

/-- Who is parked at a semaphore could have taken nothing. -/
theorem nothing (h : s.Quiet) (hseated : Seated s) (hpermits : s.Permits) {m : Nat}
    (hbooks : s.Books m) (hparked : s.Parked t (.sem m)) : s.words.counts m ≤ 0 := by
  have hphase : (s.waits.coros t).phase = .suspended (.op (.sem m)) := hparked
  obtain ⟨hopen, -⟩ := (hseated.inv.coros t).at_kind
    (show (s.waits.coros t).phase.kind = .parked by rw [hphase]; rfl)
  have hwinner := h.winner hseated hphase
  have hlink : s.waits.node t 0 ∈ s.waits.lists (.sem m) := by
    refine hopen.linked ?_ hwinner (h t).2.2.1 0 (.sem m) ?_
    · rw [hphase]
      rfl
    · rw [hphase]
      rfl
  have hchecked : (s.ledger m).checked (s.waits.node t 0) := by
    refine ⟨hwinner, ?_⟩
    change (s.waits.coros t).phase.sees _ _
    rw [hphase]
    trivial
  have hnone := hbooks.nothing (fun _ => h.debt _) (fun _ => h.not_may hseated hpermits m)
    hlink hchecked 0
  exact Int.not_lt.mp hnone

end State.Quiet

end Uvent.Sync.Primitives
