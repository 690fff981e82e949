import Mathlib.Logic.Relation
import Uvent.Sync.SuspensionInv

/-!
# The coroutines with the lists

Every step of the coroutines, the wakers, the timers and the hooks keeps the invariant, and
what `await_suspend` has returned stays.
-/

namespace Uvent.Sync.Suspension

variable {Λ : Type}

/-! ### The lists -/

section States

def State.Link (s : State Λ) (t j : Nat) (l : Λ) : Prop := s.node t j ∈ s.lists l

structure Inv (s : State Λ) : Prop where
  nodup : ∀ l, (s.lists l).Nodup
  turns : ∀ l n, n ∈ s.lists l → n.turn = (s.coros n.coro).turn
  coros : ∀ t, (s.coros t).Ok (s.Link t)

theorem inv_new : Inv (State.new : State Λ) where
  nodup := fun _ => List.nodup_nil
  turns := nofun
  coros := fun t => by
    have hlink : (State.new : State Λ).Link t = fun _ _ => False := by
      funext j l
      simp [State.Link, State.new]
    rw [hlink]
    exact ok_new

variable {s : State Λ} {t : Nat} {c' : Coro Λ}

/-- A step changes one coroutine, and only its nodes. -/
theorem Inv.one {s' : State Λ} (h : Inv s) (hcoro : s'.coros = Function.update s.coros t c')
    (hothers : ∀ l n, n.coro ≠ t → (n ∈ s'.lists l ↔ n ∈ s.lists l))
    (hnodup : ∀ l, (s'.lists l).Nodup)
    (hturns : ∀ l n, n.coro = t → n ∈ s'.lists l → n.turn = c'.turn)
    (hok : c'.Ok (s'.Link t)) : Inv s' := by
  refine ⟨hnodup, fun l n hn => ?_, fun t' => ?_⟩
  · by_cases ht : n.coro = t
    · rw [hcoro, ht, Function.update_self]
      exact hturns l n ht hn
    · rw [hcoro, Function.update_of_ne ht]
      exact h.turns l n ((hothers l n ht).mp hn)
  · by_cases ht : t' = t
    · subst ht
      rw [hcoro, Function.update_self]
      exact hok
    · have hsame : s'.coros t' = s.coros t' := by rw [hcoro, Function.update_of_ne ht]
      have hlink : s'.Link t' = s.Link t' := by
        funext j l
        unfold State.Link State.node
        rw [hsame]
        exact propext (hothers l _ ht)
      rw [hsame, hlink]
      exact h.coros t'

theorem Inv.set (h : Inv s) (hturn : c'.turn = (s.coros t).turn) (hok : c'.Ok (s.Link t)) :
    Inv (s.set t c') := by
  refine h.one rfl (fun _ _ _ => Iff.rfl) h.nodup (fun l n hn hmem => ?_) ?_
  · rw [hturn, ← hn]
    exact h.turns l n hmem
  · have hlink : (s.set t c').Link t = s.Link t := by
      funext j l
      simp [State.Link, State.node, State.set, hturn]
    rw [hlink]
    exact hok

theorem State.fire_none {n : Node} (hw : (s.coros n.coro).winner = .none) :
    s.fire n = (true, s.set n.coro
      { (s.coros n.coro).enqueue n.turn with winner := .index n.index }) := by
  simp only [State.fire, hw]

theorem State.fire_of_ne {n : Node} (hw : (s.coros n.coro).winner ≠ .none) :
    s.fire n = (false, s) := by
  cases hcase : (s.coros n.coro).winner with
  | none => exact absurd hcase hw
  | index k => simp only [State.fire, hcase]
  | cancelled => simp only [State.fire, hcase]

/-- `fire_waiter` of a node whose coroutine has no winner. -/
def State.fired (s : State Λ) (n : Node) : State Λ :=
  s.set n.coro { (s.coros n.coro).enqueue n.turn with winner := .index n.index }

theorem State.fired_winner (s : State Λ) (n : Node) :
    ((s.fired n).coros n.coro).winner = .index n.index := by
  have hself : (s.fired n).coros n.coro =
      { (s.coros n.coro).enqueue n.turn with winner := .index n.index } := Function.update_self ..
  rw [hself]

theorem Inv.start (h : Inv s) (hphase : (s.coros t).phase = .running) (w : Wait Λ) :
    Inv (s.set t ((s.coros t).start w)) := by
  have hok := (h.coros t).start hphase w
  have hnone : ∀ l n, n.coro = t → n ∉ s.lists l := by
    intro l n hn hmem
    have hturn := h.turns l n hmem
    have hlink : s.Link t n.index l := by
      rw [State.Link, State.node, ← hn, ← hturn]
      exact hmem
    exact (h.coros t).unlinked (fun j => by rw [hphase]; rfl) _ _ hlink
  refine h.one rfl (fun _ _ _ => Iff.rfl) h.nodup (fun l n hn hmem => absurd hmem (hnone l n hn)) ?_
  have hlink : (s.set t ((s.coros t).start w)).Link t = s.Link t := by
    funext j l
    exact propext (iff_of_false (hnone l _ rfl) (hnone l _ rfl))
  rw [hlink]
  exact hok

theorem Inv.detached (h : Inv s) {ops : List (Place Λ)} {why : Why} {k : Nat} {part : Part}
    (hphase : (s.coros t).phase = .detach ops why k part) (hat : ops[k]? = none) :
    Inv (s.detached t ops why) := by
  have hnone := Coro.detachedNone hphase hat
  have hfinish : (s.coros t).phase.kind = .leaving → Inv (s.set t (s.coros t).finish) := fun hkind =>
    h.set rfl ((h.coros t).finish hkind hnone ((h.coros t).unlinked hnone))
  cases why with
  | undo => exact h.set rfl ((h.coros t).detachedUndo hphase hat)
  | giveUp => exact h.set rfl ((h.coros t).detachedGiveUp hphase hat)
  | resume => exact hfinish (by rw [hphase]; rfl)
  | again => exact hfinish (by rw [hphase]; rfl)

theorem Inv.onFire (h : Inv s) (t k : Nat) : Inv (s.onFire t k) := by
  have hok := h.coros t
  have hmoves : ∀ timer, (∀ n, ((s.coros t).sleepers k).timer ≠ .enqueue n) →
      (∀ n, timer ≠ .claim n ∧ timer ≠ .enqueue n) → Inv (s.set t ((s.coros t).setTimer k timer)) :=
    fun _ hold hnew => h.set rfl (hok.timerMoves hold hnew)
  match htimer : ((s.coros t).sleepers k).timer with
  | .off | .ended => simpa only [State.onFire, htimer] using h
  | .armed =>
    simp only [State.onFire, htimer]
    exact hmoves _ (by rw [htimer]; nofun) fun _ => ⟨nofun, nofun⟩
  | .exchange =>
    match hwaiter : ((s.coros t).sleepers k).waiter with
    | none =>
      simp only [State.onFire, htimer, hwaiter]
      exact hmoves _ (by rw [htimer]; nofun) fun _ => ⟨nofun, nofun⟩
    | some n =>
      simp only [State.onFire, htimer, hwaiter]
      exact h.set rfl (hok.timerTakes htimer hwaiter)
  | .claim n =>
    simp only [State.onFire, htimer]
    split
    · rename_i hw
      exact h.set rfl (hok.timerWins htimer hw)
    · exact hmoves _ (by rw [htimer]; nofun) fun _ => ⟨nofun, nofun⟩
  | .enqueue n =>
    simp only [State.onFire, htimer]
    exact h.set rfl (hok.timerEnqueues htimer)
  | .last =>
    simp only [State.onFire, htimer]
    exact hmoves _ (by rw [htimer]; nofun) fun _ => ⟨nofun, nofun⟩

/-- What `await_suspend` returned stays, and nobody has resumed the coroutine early. -/
structure Coro.Keeps (c c' : Coro Λ) : Prop where
  verdict : ∀ n b, c.verdict n = some b → c'.verdict n = some b
  early : c'.early = c.early

theorem Coro.Keeps.of_eq {c c' : Coro Λ} (h : c'.verdict = c.verdict) (hearly : c'.early = c.early) :
    c.Keeps c' := ⟨fun n _ hn => (congrFun h n).trans hn, hearly⟩

theorem Coro.Keeps.trans {c₁ c₂ c₃ : Coro Λ} (h : c₁.Keeps c₂) (h' : c₂.Keeps c₃) : c₁.Keeps c₃ :=
  ⟨fun n b hn => h'.verdict n b (h.verdict n b hn), h'.early.trans h.early⟩

/-- `await_suspend` returns for the first time. -/
theorem Coro.Keeps.returns {c c' : Coro Λ} {b : Bool} (hnone : c.verdict c.turn = none)
    (h : c'.verdict = (c.returns b).verdict) (hearly : c'.early = c.early) : c.Keeps c' := by
  refine ⟨fun n b' hn => ?_, hearly⟩
  have hne : n ≠ c.turn := by
    rintro rfl
    rw [hnone] at hn
    cases hn
  rw [h]
  exact (Function.update_of_ne hne ..).trans hn

theorem Coro.Ok.verdict_none {c : Coro Λ} {link : Nat → Λ → Prop} (h : c.Ok link)
    (hkind : c.phase.kind = .fresh ∨ c.phase.kind = .opening ∨ c.phase.kind = .revoking ∨
      c.phase.kind = .givingUp) : c.verdict c.turn = none := by
  obtain hkind | hkind | hkind | hkind := hkind
  · exact (h.at_kind hkind).2.2.2
  · exact (h.at_kind hkind).2.2.2.1
  · exact (h.at_kind hkind).2
  · exact (h.at_kind hkind).2.2.2

theorem State.keeps {s' : State Λ} (hcoros : s'.coros = Function.update s.coros t c')
    (h : (s.coros t).Keeps c') (t' : Nat) : (s.coros t').Keeps (s'.coros t') := by
  rw [hcoros]
  by_cases ht : t' = t
  · subst ht
    rw [Function.update_self]
    exact h
  · rw [Function.update_of_ne ht]
    exact .of_eq rfl rfl

theorem State.keeps_of_eq (s : State Λ) (h : c'.verdict = (s.coros t).verdict)
    (hearly : c'.early = (s.coros t).early) (t' : Nat) :
    (s.coros t').Keeps ((s.set t c').coros t') := State.keeps rfl (.of_eq h hearly) t'

theorem State.onFire_keeps (s : State Λ) (t k t' : Nat) :
    (s.coros t').Keeps ((s.onFire t k).coros t') := by
  simp only [State.onFire]
  split
  · exact .of_eq rfl rfl
  · exact .of_eq rfl rfl
  · exact s.keeps_of_eq (by rfl) (by rfl) t'
  · split <;> exact s.keeps_of_eq (by rfl) (by rfl) t'
  · split <;> exact s.keeps_of_eq (by rfl) (by rfl) t'
  · exact s.keeps_of_eq (by rfl) (by rfl) t'
  · exact s.keeps_of_eq (by rfl) (by rfl) t'

variable [DecidableEq Λ]

/-- A step that leaves the coroutine's own nodes in the lists, less or more. -/
theorem Inv.setList (h : Inv s) {l : Λ} {nodes : WaitList Node}
    (hturn : c'.turn = (s.coros t).turn) (hnodup : nodes.Nodup)
    (hothers : ∀ n, n.coro ≠ t → (n ∈ nodes ↔ n ∈ s.lists l))
    (hturns : ∀ n, n.coro = t → n ∈ nodes → n.turn = (s.coros t).turn)
    (hok : c'.Ok fun j l' => s.node t j ∈ Function.update s.lists l nodes l') :
    Inv ((s.setList l nodes).set t c') := by
  refine h.one rfl (fun l' n hn => ?_) (fun l' => ?_) (fun l' n hn hmem => ?_) ?_
  · show n ∈ Function.update s.lists l nodes l' ↔ _
    by_cases hl : l' = l
    · subst hl
      rw [Function.update_self]
      exact hothers n hn
    · rw [Function.update_of_ne hl]
  · show (Function.update s.lists l nodes l').Nodup
    by_cases hl : l' = l
    · subst hl
      rw [Function.update_self]
      exact hnodup
    · rw [Function.update_of_ne hl]
      exact h.nodup l'
  · replace hmem : n ∈ Function.update s.lists l nodes l' := hmem
    rw [hturn]
    by_cases hl : l' = l
    · subst hl
      rw [Function.update_self] at hmem
      exact hturns n hn hmem
    · rw [Function.update_of_ne hl] at hmem
      rw [← hn]
      exact h.turns l' n hmem
  · have hlink : ((s.setList l nodes).set t c').Link t =
        fun j l' => s.node t j ∈ Function.update s.lists l nodes l' := by
      funext j l'
      simp [State.Link, State.node, State.set, State.setList, hturn]
    rw [hlink]
    exact hok

theorem Inv.push (h : Inv s) {k : Nat} {l : Λ} (hturn : c'.turn = (s.coros t).turn)
    (hnot : ¬ s.Link t k l) (hok : c'.Ok fun j l' => s.Link t j l' ∨ j = k ∧ l' = l) :
    Inv ((s.push t k l).set t c') := by
  refine h.setList hturn ?_ (fun n hn => ?_) (fun n hn hmem => ?_) ?_
  · rw [WaitList.pushLocked, ← List.concat_eq_append]
    exact (h.nodup l).concat hnot
  · have hne : n ≠ s.node t k := fun heq => hn (congrArg Node.coro heq)
    simp [WaitList.pushLocked, hne]
  · obtain hmem | hmem := List.mem_append.mp hmem
    · rw [← hn]
      exact h.turns l n hmem
    · rw [List.mem_singleton.mp hmem]
      rfl
  · have hlink : (fun j l' => s.Link t j l' ∨ j = k ∧ l' = l) =
        fun j l' => s.node t j ∈ Function.update s.lists l
          ((s.lists l).pushLocked (s.node t k)) l' := by
      funext j l'
      by_cases hl : l' = l
      · subst hl
        simp [WaitList.pushLocked, State.Link, State.node]
      · simp [State.Link, hl]
    rw [← hlink]
    exact hok

theorem Inv.remove (h : Inv s) {k : Nat} {l : Λ} (hturn : c'.turn = (s.coros t).turn)
    (hok : c'.Ok fun j l' => s.Link t j l' ∧ ¬ (j = k ∧ l' = l)) :
    Inv ((s.remove t k l).2.set t c') := by
  refine h.setList hturn ((h.nodup l).erase _) (fun n hn => ?_) (fun n hn hmem => ?_) ?_
  · have hne : n ≠ s.node t k := fun heq => hn (congrArg Node.coro heq)
    exact List.mem_erase_of_ne hne
  · rw [← hn]
    exact h.turns l n (List.mem_of_mem_erase hmem)
  · have hlink : (fun j l' => s.Link t j l' ∧ ¬ (j = k ∧ l' = l)) =
        fun j l' => s.node t j ∈ Function.update s.lists l ((s.lists l).erase (s.node t k)) l' := by
      funext j l'
      by_cases hl : l' = l
      · subst hl
        by_cases hj : j = k
        · subst hj
          simp [(h.nodup l').not_mem_erase]
        · have hne : s.node t j ≠ s.node t k := fun heq => hj (congrArg Node.index heq)
          simp [List.mem_erase_of_ne hne, State.Link, hj]
      · simp [State.Link, hl]
    rw [← hlink]
    exact hok

theorem State.remove_fst (s : State Λ) (t k : Nat) (l : Λ) :
    (s.remove t k l).1 = true ↔ s.Link t k l := by
  simp [State.remove, WaitList.removeLocked, State.Link]

/-! ### The loop of a waker -/

section Loop

variable {l : Λ}

theorem State.popFire_nil (h : s.lists l = []) : s.popFire l = (false, s) := by
  rw [popFire, h]
  rfl

theorem State.popFire_live {n : Node} {nodes : List Node} (h : s.lists l = n :: nodes)
    (hlive : (s.coros n.coro).winner = .none) :
    s.popFire l = (true, (s.setList l nodes).fired n) := by
  rw [popFire, h]
  exact State.fire_none hlive

theorem State.popFire_dead {n : Node} {nodes : List Node} (h : s.lists l = n :: nodes)
    (hlive : (s.coros n.coro).winner ≠ .none) :
    s.popFire l = (false, s.setList l nodes) := by
  rw [popFire, h]
  exact State.fire_of_ne hlive

theorem State.setList_lists (s : State Λ) (l : Λ) (nodes : WaitList Node) :
    (s.setList l nodes).lists l = nodes := Function.update_self ..

/-- A waker that wakes as many as there are leaves nobody. -/
theorem State.wakeLoop_all {fuel count : Nat} (hfuel : (s.lists l).length ≤ fuel)
    (hcount : (s.lists l).length ≤ count) : (State.wakeLoop l fuel count s).lists l = [] := by
  induction fuel generalizing count s with
  | zero => exact List.eq_nil_of_length_eq_zero (Nat.le_zero.mp hfuel)
  | succ fuel ih =>
    cases count with
    | zero => exact List.eq_nil_of_length_eq_zero (Nat.le_zero.mp hcount)
    | succ count =>
      rw [State.wakeLoop_succ]
      cases hlist : s.lists l with
      | nil =>
        rw [State.popFire_nil hlist]
        refine ih ?_ ?_
        · rw [hlist]
          exact Nat.zero_le fuel
        · rw [hlist]
          exact Nat.zero_le _
      | cons n nodes =>
        rw [hlist, List.length_cons] at hfuel hcount
        have htail := s.setList_lists l nodes
        by_cases hlive : (s.coros n.coro).winner = .none
        · rw [State.popFire_live hlist hlive]
          have hgone : ((s.setList l nodes).fired n).lists l = nodes := htail
          refine ih ?_ ?_
          · rw [hgone]
            omega
          · rw [hgone, if_pos rfl]
            omega
        · rw [State.popFire_dead hlist hlive]
          refine ih ?_ ?_
          · rw [htail]
            omega
          · rw [htail, if_neg Bool.false_ne_true]
            omega

end Loop

theorem Inv.popFire (h : Inv s) (l : Λ) : Inv (s.popFire l).2 := by
  unfold State.popFire
  match hlist : s.lists l with
  | [] => exact h
  | n :: nodes =>
    simp only [WaitList.popFrontLocked]
    have hmem : n ∈ s.lists l := by simp [hlist]
    have hturn := h.turns l n hmem
    have hnode : n = s.node n.coro n.index := by
      rw [State.node, ← hturn]
    have hlink : s.Link n.coro n.index l := by
      rw [State.Link, ← hnode]
      exact hmem
    have herase : (s.lists l).erase n = nodes := by simp [hlist]
    have hremove : s.setList l nodes = (s.remove n.coro n.index l).2 := by
      rw [State.remove, ← hnode]
      simp [WaitList.removeLocked, herase]
    by_cases hw : (s.coros n.coro).winner = .none
    · rw [State.fire_none (s := s.setList l nodes) hw, hremove]
      refine h.remove rfl ?_
      rw [hturn]
      exact (h.coros n.coro).fire hlink hw fun _ _ hl => hl
    · rw [State.fire_of_ne (s := s.setList l nodes) hw]
      have hsame : s.setList l nodes = (s.setList l nodes).set n.coro (s.coros n.coro) := by
        simp [State.set, State.setList]
      rw [hsame, hremove]
      exact h.remove rfl ((h.coros n.coro).unlink hw fun _ _ hl => hl.1)

theorem Inv.wakeLoop (h : Inv s) (l : Λ) (fuel count : Nat) :
    Inv (State.wakeLoop l fuel count s) := by
  induction fuel generalizing count s with
  | zero => exact h
  | succ fuel ih =>
    cases count with
    | zero => exact h
    | succ count =>
      rw [State.wakeLoop_succ]
      exact ih (h.popFire l) _

theorem Inv.wake (h : Inv s) (l : Λ) (count : Nat) : Inv (s.wake l count) := h.wakeLoop l _ count

theorem Inv.attach (h : Inv s) {w : Wait Λ} {k : Nat} (hphase : (s.coros t).phase = .attach w k) :
    Inv (s.attach t w k) := by
  unfold State.attach
  match hat : w.places[k]? with
  | none => exact h.set rfl ((h.coros t).attachNone hphase hat)
  | some .sleep => exact h.set rfl ((h.coros t).attachSleep hphase hat)
  | some (.listed l) =>
    refine h.push rfl (fun hlink => ?_) ((h.coros t).attachListed hphase hat)
    have hp := (h.coros t).place k l hlink
    rw [hphase] at hp
    simp [Phase.place] at hp

/-- The node is in the list, or `remove` leaves the lists as they are. -/
theorem Inv.removed (h : Inv s) {k : Nat} {l : Λ} (hturn : c'.turn = (s.coros t).turn)
    (hnot : ¬ s.Link t k l) (hok : c'.Ok (s.Link t)) : Inv ((s.remove t k l).2.set t c') := by
  refine h.remove hturn ?_
  have hlink : (fun j l' => s.Link t j l' ∧ ¬ (j = k ∧ l' = l)) = s.Link t := by
    funext j l'
    refine propext ⟨fun hl => hl.1, fun hl => ⟨hl, ?_⟩⟩
    rintro ⟨rfl, rfl⟩
    exact hnot hl
  rw [hlink]
  exact hok

theorem Inv.undo (h : Inv s) {l : Λ} (hphase : (s.coros t).phase = .undo l) :
    Inv (s.undo t l) := by
  have hplain : (s.coros t).phase.plain = true := by rw [hphase]; rfl
  have hkind : (s.coros t).phase.kind = .opening := by rw [hphase]; rfl
  rw [State.undo_eq]
  by_cases hlink : s.Link t 0 l
  · rw [if_pos ((s.remove_fst t 0 l).mpr hlink)]
    exact h.remove rfl ((h.coros t).undo hphase hlink ((h.coros t).only hplain hlink))
  · rw [if_neg ((s.remove_fst t 0 l).not.mpr hlink)]
    obtain ⟨hopen, hhook, hpc, -, -⟩ := (h.coros t).at_kind hkind
    refine h.removed rfl hlink ((h.coros t).suspend hopen (fun j x hj => ?_) ?_ (fun _ _ => hplain) ?_ ?_)
    · rw [hphase] at hj
      cases j with
      | zero => exact hj
      | succ j => cases hj
    · intro hw hi
      refine absurd (hopen.linked (by rw [hphase]; rfl) hw hi 0 l (by rw [hphase]; rfl)) hlink
    · exact fun hs => absurd (hpc.symm.trans hs) nofun
    · exact fun w' hw' => absurd (hhook.symm.trans hw') nofun

theorem Inv.withdraw (h : Inv s) {w : Wait Λ} (hphase : (s.coros t).phase = .withdraw w) :
    Inv (s.withdraw t w) := by
  cases w with
  | op l =>
    have hplain : (s.coros t).phase.plain = true := by rw [hphase]; rfl
    rw [State.withdraw_op]
    by_cases hlink : s.Link t 0 l
    · rw [if_pos ((s.remove_fst t 0 l).mpr hlink)]
      exact h.remove rfl ((h.coros t).withdrawOp hphase hlink ((h.coros t).only hplain hlink))
    · rw [if_neg ((s.remove_fst t 0 l).not.mpr hlink)]
      obtain ⟨hopen, -⟩ := (h.coros t).at_kind (show _ = Kind.revoking by rw [hphase]; rfl)
      refine h.removed rfl hlink ((h.coros t).withdrawFails hphase fun hw hi => hlink ?_)
      exact hopen.linked (by rw [hphase]; rfl) hw hi 0 l (by rw [hphase]; rfl)
  | select ops =>
    simp only [State.withdraw]
    split
    · rename_i hw
      exact h.set rfl ((h.coros t).withdrawSelect hphase hw)
    · rename_i hw
      exact h.set rfl ((h.coros t).withdrawFails hphase fun hn _ => hw hn)

theorem Inv.detach (h : Inv s) {ops : List (Place Λ)} {why : Why} {k : Nat} {part : Part}
    (hphase : (s.coros t).phase = .detach ops why k part) : Inv (s.detach t ops why k part) := by
  have hok := h.coros t
  unfold State.detach
  match hat : ops[k]? with
  | none => exact h.detached hphase hat
  | some (.listed l) => exact h.remove rfl (hok.detachListed hphase hat fun _ _ hl => hl)
  | some .sleep =>
    cases part with
    | exchange =>
      simp only
      split
      · rename_i hsome
        obtain ⟨n, hn⟩ := Option.isSome_iff_exists.mp hsome
        have hidle := ((hok.sleeps k).waiter n hn).2.2
        exact h.set rfl (hok.detachSleep hphase hat rfl rfl
          (.inr ⟨rfl, fun m => (hidle m).1, fun m => (hidle m).2, rfl⟩))
      · exact h.set rfl (hok.detachSleep hphase hat rfl rfl (.inl rfl))
    | loadFired =>
      have hgone := (hok.sleeps k).gone (by rw [hphase]; simp [Phase.exchanged])
      have hself : (s.coros t).setSleeper k ((s.coros t).sleepers k) = s.coros t := by
        simp [Coro.setSleeper]
      simp only
      split
      · refine h.set rfl ?_
        rw [← hself]
        exact hok.detachSleep hphase hat hgone rfl (.inl rfl)
      · rename_i hfired
        refine h.set rfl ?_
        rw [← hself]
        refine hok.detachSleep hphase hat hgone rfl (.inr ⟨rfl, fun n hn => ?_, fun n hn => ?_, rfl⟩)
        · exact hfired (by rw [hn]; rfl)
        · exact hfired (by rw [hn]; rfl)
    | spin =>
      have hgone := (hok.sleeps k).gone (by rw [hphase]; simp [Phase.exchanged])
      have hself : (s.coros t).setSleeper k ((s.coros t).sleepers k) = s.coros t := by
        simp [Coro.setSleeper]
      simp only
      split
      · rename_i hdone
        refine h.set rfl ?_
        rw [← hself]
        refine hok.detachSleep hphase hat hgone rfl (.inr ⟨rfl, fun n hn => ?_, fun n hn => ?_, rfl⟩)
        · rw [hn] at hdone
          cases hdone
        · rw [hn] at hdone
          cases hdone
      · exact h

theorem Inv.onCancel (h : Inv s) {w : Wait Λ} (hhook : (s.coros t).hook = some w) :
    Inv (s.onCancel t w) := by
  have hok := h.coros t
  have hsome : (s.coros t).hook ≠ none := by rw [hhook]; nofun
  cases w with
  | op l =>
    rw [State.onCancel_op]
    by_cases hlink : s.Link t 0 l
    · rw [if_pos ((s.remove_fst t 0 l).mpr hlink)]
      obtain ⟨hopen, -⟩ := hok.hooked (.inl hsome)
      have hplain : (s.coros t).phase.plain = true := by
        obtain hp | hp := hopen.hooked _ hhook <;> rw [hp] <;> rfl
      exact h.remove rfl (hok.onCancelOp hhook hlink (hok.only hplain hlink))
    · rw [if_neg ((s.remove_fst t 0 l).not.mpr hlink)]
      exact h.removed rfl hlink (hok.onCancelLate hsome)
  | select ops =>
    simp only [State.onCancel]
    split
    · rename_i hw
      exact h.set rfl (hok.onCancelSelect hhook hw)
    · exact h.set rfl (hok.onCancelLate hsome)

theorem Inv.resumed (h : Inv s) {l : Λ} (hphase : (s.coros t).phase = .resumed l) :
    Inv (s.resumed t l) := by
  have hnone : ∀ j, (s.coros t).phase.place j = none := fun j => by rw [hphase]; rfl
  exact h.remove rfl ((h.coros t).finish (by rw [hphase]; rfl) hnone
    fun j l' hl => (h.coros t).unlinked hnone j l' hl.1)

theorem inv_step {s' : State Λ} (h : Inv s) (hstep : Step true s s') : Inv s' := by
  cases hstep with
  | request t => exact h.set rfl (h.coros t).request
  | start t w hphase => exact h.start hphase w
  | check t w hphase =>
    refine h.set ?_ ((h.coros t).check hphase)
    split <;> rfl
  | attach t w k hphase => exact h.attach hphase
  | startTimer t w k hphase => exact h.set rfl ((h.coros t).startTimer hphase _ rfl)
  | look t w k wait hphase _ => exact h.set rfl ((h.coros t).look hphase wait)
  | undo t l hphase => exact h.undo hphase
  | arm t w hphase =>
    refine h.set ?_ ((h.coros t).arm hphase)
    split <;> rfl
  | withdraw t w hphase => exact h.withdraw hphase
  | detach t ops why k part hphase => exact h.detach hphase
  | readWinner t ops hphase =>
    have hok := (h.coros t).readWinner hphase
    unfold State.readWinner
    simp only
    split
    · rename_i hw
      rw [if_pos hw] at hok
      exact h.set rfl hok
    · rename_i hw
      rw [if_neg hw] at hok
      exact h.set rfl hok
  | resume t w hphase hqueued => exact h.set rfl ((h.coros t).resume hphase hqueued)
  | resumeEarly t hbuild _ _ => cases hbuild
  | resumed t l hphase => exact h.resumed hphase
  | onCancel t w _ hhook => exact h.onCancel hhook
  | storeOwn t hpc => exact h.set rfl ((h.coros t).storeOwn hpc)
  | enqueueSelf t hpc => exact h.set rfl ((h.coros t).enqueueSelf hpc)
  | wake l count => exact h.wake l count
  | onFire t k => exact h.onFire t k
  | finalize t k hphase htimer =>
    refine h.set rfl ((h.coros t).timerMoves (fun n hn => ?_) fun _ => ⟨nofun, nofun⟩)
    rw [hn] at htimer
    obtain htimer | htimer := htimer <;> cases htimer

theorem State.popFire_keeps (s : State Λ) (l : Λ) (t : Nat) :
    (s.coros t).Keeps ((s.popFire l).2.coros t) := by
  unfold State.popFire
  match (s.lists l).popFrontLocked with
  | (none, _) => exact .of_eq rfl rfl
  | (some n, nodes) =>
    by_cases hw : (s.coros n.coro).winner = .none
    · simp only [State.fire_none (s := s.setList l nodes) hw]
      exact State.keeps (by rfl) (.of_eq (by rfl) (by rfl)) t
    · simp only [State.fire_of_ne (s := s.setList l nodes) hw]
      exact .of_eq rfl rfl

theorem State.wakeLoop_keeps (s : State Λ) (l : Λ) (fuel count : Nat) (t : Nat) :
    (s.coros t).Keeps ((State.wakeLoop l fuel count s).coros t) := by
  induction fuel generalizing count s with
  | zero => exact .of_eq rfl rfl
  | succ fuel ih =>
    cases count with
    | zero => exact .of_eq rfl rfl
    | succ count =>
      rw [State.wakeLoop_succ]
      exact (s.popFire_keeps l t).trans (ih _ _)

theorem Inv.undo_keeps (h : Inv s) {l : Λ} (hphase : (s.coros t).phase = .undo l) (t' : Nat) :
    (s.coros t').Keeps ((s.undo t l).coros t') := by
  have hnone := (h.coros t).verdict_none (.inr (.inl (by rw [hphase]; rfl)))
  rw [State.undo_eq]
  refine State.keeps rfl ?_ t'
  split
  · exact .returns hnone rfl rfl
  · exact .returns hnone rfl rfl

theorem Inv.withdraw_keeps (h : Inv s) {w : Wait Λ} (hphase : (s.coros t).phase = .withdraw w)
    (t' : Nat) : (s.coros t').Keeps ((s.withdraw t w).coros t') := by
  have hnone := (h.coros t).verdict_none (.inr (.inr (.inl (by rw [hphase]; rfl))))
  cases w with
  | op l =>
    rw [State.withdraw_op]
    refine State.keeps rfl ?_ t'
    split
    · exact .returns hnone rfl rfl
    · exact .returns hnone rfl rfl
  | select ops =>
    simp only [State.withdraw]
    split
    · exact s.keeps_of_eq (by rfl) (by rfl) t'
    · exact State.keeps (by rfl) (.returns hnone (by rfl) (by rfl)) t'

theorem Inv.detach_keeps (h : Inv s) {ops : List (Place Λ)} {why : Why} {k : Nat} {part : Part}
    (hphase : (s.coros t).phase = .detach ops why k part) (t' : Nat) :
    (s.coros t').Keeps ((s.detach t ops why k part).coros t') := by
  unfold State.detach
  match ops[k]? with
  | none =>
    cases why with
    | undo | resume | again => exact s.keeps_of_eq (by rfl) (by rfl) t'
    | giveUp =>
      have hnone := (h.coros t).verdict_none (.inr (.inr (.inr (by rw [hphase]; rfl))))
      exact State.keeps (by rfl) (.returns hnone (by rfl) (by rfl)) t'
  | some (.listed l) => exact s.keeps_of_eq (by rfl) (by rfl) t'
  | some .sleep =>
    cases part with
    | exchange | loadFired => exact s.keeps_of_eq (by rfl) (by rfl) t'
    | spin =>
      simp only
      split
      · exact s.keeps_of_eq (by rfl) (by rfl) t'
      · exact .of_eq rfl rfl

theorem keeps_of_step {s' : State Λ} (h : Inv s) (hstep : Step true s s') (t' : Nat) :
    (s.coros t').Keeps (s'.coros t') := by
  cases hstep with
  | request t => exact s.keeps_of_eq (by rfl) (by rfl) t'
  | start t w _ => exact s.keeps_of_eq (by rfl) (by rfl) t'
  | check t w hphase =>
    have hnone := (h.coros t).verdict_none (.inl (by rw [hphase]; rfl))
    refine State.keeps rfl ?_ t'
    split
    · exact .returns hnone rfl rfl
    · exact .of_eq rfl rfl
  | attach t w k _ =>
    unfold State.attach
    match w.places[k]? with
    | none | some (.listed _) | some .sleep => exact s.keeps_of_eq (by rfl) (by rfl) t'
  | startTimer t w k _ => exact s.keeps_of_eq (by rfl) (by rfl) t'
  | look t w k wait _ _ => exact s.keeps_of_eq (by rfl) (by rfl) t'
  | undo t l hphase => exact h.undo_keeps hphase t'
  | arm t w hphase =>
    have hnone := (h.coros t).verdict_none (.inr (.inl (by rw [hphase]; rfl)))
    refine State.keeps rfl ?_ t'
    split
    · exact .of_eq rfl rfl
    · exact .returns hnone rfl rfl
  | withdraw t w hphase => exact h.withdraw_keeps hphase t'
  | detach t ops why k part hphase => exact h.detach_keeps hphase t'
  | readWinner t ops hphase =>
    have hnone := (h.coros t).verdict_none (.inr (.inl (by rw [hphase]; rfl)))
    simp only [State.readWinner]
    split
    · exact State.keeps (by rfl) (.returns hnone (by rfl) (by rfl)) t'
    · exact State.keeps (by rfl) (.returns hnone (by rfl) (by rfl)) t'
  | resume t w _ _ => exact s.keeps_of_eq (by rfl) (by rfl) t'
  | resumeEarly t hbuild _ _ => cases hbuild
  | resumed t l _ => exact s.keeps_of_eq (by rfl) (by rfl) t'
  | onCancel t w _ _ =>
    cases w with
    | op l =>
      rw [State.onCancel_op]
      refine State.keeps rfl ?_ t'
      split <;> exact .of_eq rfl rfl
    | select ops =>
      simp only [State.onCancel]
      split <;> exact s.keeps_of_eq (by rfl) (by rfl) t'
  | storeOwn t _ => exact s.keeps_of_eq (by rfl) (by rfl) t'
  | enqueueSelf t _ => exact s.keeps_of_eq (by rfl) (by rfl) t'
  | wake l count => exact s.wakeLoop_keeps l _ count t'
  | onFire t k => exact s.onFire_keeps t k t'
  | finalize t k _ _ => exact s.keeps_of_eq (by rfl) (by rfl) t'

theorem inv_of_runs (hruns : Runs true s) : Inv s := by
  induction hruns with
  | start => exact inv_new
  | step _ hstep ih => exact inv_step ih hstep

theorem inv_of_steps {s' : State Λ} (h : Inv s) (hsteps : Relation.ReflTransGen (Step true) s s') :
    Inv s' ∧ ∀ t, (s.coros t).Keeps (s'.coros t) := by
  induction hsteps with
  | refl => exact ⟨h, fun _ => .of_eq rfl rfl⟩
  | tail _ hstep ih =>
    obtain ⟨hinv, hkeeps⟩ := ih
    exact ⟨inv_step hinv hstep, fun t => (hkeeps t).trans (keeps_of_step hinv hstep t)⟩

end States

end Uvent.Sync.Suspension
