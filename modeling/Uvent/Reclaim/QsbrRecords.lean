import Uvent.Reclaim.Qsbr

/-!
# The records of attached threads

A `ThreadState` belongs to one thread at a time, from the `compare_exchange` on `in_use` on,
and those of attached threads are on the chain that a scan walks.
-/

namespace Uvent.Reclaim.Qsbr

def Pc.claimed : Pc → Option Nat
  | .attachTaken r | .attachPush r _ => some r
  | _ => none

def Pc.attaching : Pc → Bool
  | .attachWalk _ | .attachTaken _ | .attachPush .. => true
  | _ => false

def Pc.outside : Pc → Bool
  | .detachOrphans | .detachRelease | .enterEpoch _ | .enterActive => true
  | _ => false

theorem Pc.claimed_of_attached {pc : Pc} (h : pc.attaching = false) : pc.claimed = none := by
  cases pc <;> first | rfl | exact Bool.noConfusion h

def Thread.holds (th : Thread) : Option Nat := th.pc.claimed.or th.tls

theorem Thread.holds_of_attached {th : Thread} (h : th.pc.attaching = false) :
    th.holds = th.tls := by
  unfold Thread.holds
  rw [Pc.claimed_of_attached h]
  rfl

theorem setRecord_self (s : State) (r : Nat) (x : ThreadState) : (s.setRecord r x).record r = x :=
  Function.update_self ..

variable {s s' : State} {t : Nat} {th : Thread} {e : Event} {ok : State → Event → Prop}
  {head head' : List Nat} {record record' : Nat → ThreadState}

structure Placed (head : List Nat) (record : Nat → ThreadState) (th : Thread) : Prop where
  used : ∀ r, th.holds = some r → (record r).inUse = true
  chained : ∀ r, th.tls = some r → r ∈ head
  walking : ∀ rest, th.pc = .attachWalk rest → ∀ r ∈ rest, r ∈ head
  taken : ∀ r, th.pc = .attachTaken r → r ∈ head
  attaching : th.pc.attaching = true → th.tls = none
  inside : th.inside = true → ∃ r, th.tls = some r ∧ (record r).active = true
  outside : th.pc.outside = true → th.inside = false

structure Records (s : State) : Prop where
  placed : ∀ t, Placed s.head s.record (s.thread t)
  unique : ∀ t t' r, (s.thread t).holds = some r → (s.thread t').holds = some r → t = t'
  known : ∀ r, (s.record r).inUse = true → r < s.records
  chain : ∀ r ∈ s.head, r < s.records

theorem records_new : Records .new where
  placed _ := ⟨nofun, nofun, nofun, nofun, fun _ => rfl, nofun, fun _ => rfl⟩
  unique _ _ _ := nofun
  known _ := nofun
  chain _ := nofun

theorem Placed.holds_of_tls (h : Placed head record th) {r : Nat} (htls : th.tls = some r) :
    th.holds = some r := by
  have hplain : th.pc.claimed = none := by
    cases hpc : th.pc with
    | attachTaken _ | attachPush _ _ =>
        have hnone := h.attaching (by rw [hpc]; rfl)
        rw [htls] at hnone
        cases hnone
    | _ => rfl
  unfold Thread.holds
  rw [hplain, htls]
  rfl

/-- The others keep what they know when their records stay as they are. -/
theorem Placed.others (h : Placed head record th) (hhead : ∀ r ∈ head, r ∈ head')
    (hrecord : ∀ r, th.holds = some r → record' r = record r) : Placed head' record' th where
  used r hr := by
    rw [hrecord r hr]
    exact h.used r hr
  chained r hr := hhead r (h.chained r hr)
  walking rest hpc r hr := hhead r (h.walking rest hpc r hr)
  taken r hpc := hhead r (h.taken r hpc)
  attaching := h.attaching
  inside hin := by
    obtain ⟨r, htls, hactive⟩ := h.inside hin
    refine ⟨r, htls, ?_⟩
    rw [hrecord r (h.holds_of_tls htls)]
    exact hactive
  outside := h.outside

theorem Placed.goto (h : Placed head record th) {pc : Pc} {retired : List Retired}
    (hold : th.pc.attaching = false) (hnew : pc.attaching = false)
    (houtside : pc.outside = true → th.inside = false) :
    Placed head record { th with pc := pc, retired := retired } := by
  have hholds : ({ th with pc := pc, retired := retired } : Thread).holds = th.tls :=
    Thread.holds_of_attached hnew
  refine ⟨fun r hr => ?_, h.chained, fun rest hpc => ?_, fun r hpc => ?_, fun hpc => ?_, h.inside,
    houtside⟩
  · rw [hholds] at hr
    exact h.used r ((Thread.holds_of_attached hold).trans hr)
  · have hwalk : pc = .attachWalk rest := hpc
    rw [hwalk] at hnew
    exact Bool.noConfusion hnew
  · have htaken : pc = .attachTaken r := hpc
    rw [htaken] at hnew
    exact Bool.noConfusion hnew
  · exact absurd hpc (by simp [hnew])

theorem Records.move (h : Records s) (hthread : s'.thread = Function.update s.thread t th)
    (hhead : ∀ r ∈ s.head, r ∈ s'.head)
    (hrecord : ∀ t', t' ≠ t → ∀ r, (s.thread t').holds = some r → s'.record r = s.record r)
    (hplaced : Placed s'.head s'.record th)
    (hholds : ∀ r, th.holds = some r → ∀ t', t' ≠ t → (s.thread t').holds ≠ some r)
    (hknown : ∀ r, (s'.record r).inUse = true → r < s'.records)
    (hchain : ∀ r ∈ s'.head, r < s'.records) : Records s' := by
  have hself : s'.thread t = th := by rw [hthread, Function.update_self]
  have hother : ∀ t', t' ≠ t → s'.thread t' = s.thread t' := fun t' ht => by
    rw [hthread, Function.update_of_ne ht]
  refine ⟨fun t' => ?_, fun t₁ t₂ r h₁ h₂ => ?_, hknown, hchain⟩
  · by_cases ht : t' = t
    · rw [ht, hself]
      exact hplaced
    · rw [hother t' ht]
      exact (h.placed t').others hhead (hrecord t' ht)
  · by_cases ht₁ : t₁ = t
    · by_cases ht₂ : t₂ = t
      · rw [ht₁, ht₂]
      · rw [ht₁, hself] at h₁
        rw [hother t₂ ht₂] at h₂
        exact absurd h₂ (hholds r h₁ t₂ ht₂)
    · rw [hother t₁ ht₁] at h₁
      by_cases ht₂ : t₂ = t
      · rw [ht₂, hself] at h₂
        exact absurd h₁ (hholds r h₂ t₁ ht₁)
      · rw [hother t₂ ht₂] at h₂
        exact h.unique t₁ t₂ r h₁ h₂

theorem Records.apart (h : Records s) {r : Nat} (hr : (s.thread t).holds = some r) (t' : Nat)
    (ht : t' ≠ t) : (s.thread t').holds ≠ some r :=
  fun hr' => ht (h.unique t' t r hr' hr)

theorem Records.goto (h : Records s) {pc : Pc} {retired : List Retired}
    (hthread : s'.thread =
      Function.update s.thread t { s.thread t with pc := pc, retired := retired })
    (hhead : s'.head = s.head) (hrecord : s'.record = s.record) (hrecords : s'.records = s.records)
    (hold : (s.thread t).pc.attaching = false) (hnew : pc.attaching = false)
    (houtside : pc.outside = true → (s.thread t).inside = false) : Records s' := by
  refine h.move hthread (fun r hr => hhead ▸ hr) (fun t' _ r _ => by rw [hrecord]) ?_ ?_ ?_ ?_
  · rw [hhead, hrecord]
    exact (h.placed t).goto hold hnew houtside
  · intro r hr
    rw [Thread.holds_of_attached hnew] at hr
    exact h.apart ((Thread.holds_of_attached hold).trans hr)
  · rw [hrecord, hrecords]
    exact h.known
  · rw [hhead, hrecords]
    exact h.chain

/-- What a thread writes to its record is not seen in those of others. -/
theorem Records.written (h : Records s) {r : Nat} (hr : (s.thread t).holds = some r)
    (x : ThreadState) (t' : Nat) (ht : t' ≠ t) (r' : Nat) (hr' : (s.thread t').holds = some r') :
    Function.update s.record r x r' = s.record r' := by
  refine Function.update_of_ne ?_ ..
  rintro rfl
  exact h.apart hr t' ht hr'

theorem Records.known_set (h : Records s) {r : Nat} (x : ThreadState)
    (hx : (s.record r).inUse = true ∨ r < s.records) (r' : Nat)
    (hr' : (Function.update s.record r x r').inUse = true) : r' < s.records := by
  by_cases hrr : r' = r
  · rw [hrr]
    exact hx.elim (h.known r) id
  · rw [Function.update_of_ne hrr] at hr'
    exact h.known r' hr'

theorem Records.write (h : Records s) {r : Nat} {x : ThreadState} {pc : Pc} {inside : Bool}
    (hthread : s'.thread =
      Function.update s.thread t { s.thread t with pc := pc, inside := inside })
    (hrecord : s'.record = Function.update s.record r x) (hhead : s'.head = s.head)
    (hrecords : s'.records = s.records) (htls : (s.thread t).tls = some r)
    (hpc : pc.attaching = false) (hused : x.inUse = (s.record r).inUse)
    (hinside : inside = true → x.active = true) (houtside : pc.outside = true → inside = false) :
    Records s' := by
  have hheld := (h.placed t).holds_of_tls htls
  have hholds : ∀ r', ({ s.thread t with pc := pc, inside := inside } : Thread).holds = some r' →
      r' = r := by
    intro r' hr'
    rw [Thread.holds_of_attached hpc] at hr'
    exact Option.some.inj (hr'.symm.trans htls)
  refine h.move hthread (fun r' hr' => hhead ▸ hr') (fun t' ht r' hr' => ?_) ?_
    (fun r' hr' => ?_) (fun r' hr' => ?_) (by rw [hhead, hrecords]; exact h.chain)
  · rw [hrecord]
    exact h.written hheld x t' ht r' hr'
  · rw [hhead, hrecord]
    refine ⟨fun r' hr' => ?_, (h.placed t).chained, fun rest hwalk => ?_, fun r' htaken => ?_,
      fun hattaching => ?_, fun hin => ⟨r, htls, ?_⟩, houtside⟩
    · rw [hholds r' hr', Function.update_self, hused]
      exact (h.placed t).used r hheld
    · have hwalk' : pc = .attachWalk rest := hwalk
      rw [hwalk'] at hpc
      exact Bool.noConfusion hpc
    · have htaken' : pc = .attachTaken r' := htaken
      rw [htaken'] at hpc
      exact Bool.noConfusion hpc
    · exact absurd hattaching (by simp [hpc])
    · rw [Function.update_self]
      exact hinside hin
  · rw [hholds r' hr']
    exact h.apart hheld
  · rw [hrecord] at hr'
    rw [hrecords]
    exact h.known_set x (.inl ((h.placed t).used r hheld)) r' hr'

/-! ### Attaching -/

theorem Records.attachTake (h : Records s) {r : Nat} {rest : List Nat}
    (pc : (s.thread t).pc = .attachWalk (r :: rest)) (free : (s.record r).inUse = false) :
    Records
      ((s.setRecord r { s.record r with inUse := true }).goto t (.attachTaken r)) := by
  have hchain := (h.placed t).walking _ pc r List.mem_cons_self
  have htls := (h.placed t).attaching (by rw [pc]; rfl)
  have hunheld : ∀ t', (s.thread t').holds ≠ some r := by
    intro t' hr
    have hused := (h.placed t').used r hr
    rw [free] at hused
    cases hused
  refine h.move rfl (fun _ => id) (fun t' _ r' hr' => ?_) ?_ (fun r' hr' t' _ => ?_)
    (h.known_set _ (.inr (h.chain r hchain))) h.chain
  · refine Function.update_of_ne ?_ ..
    rintro rfl
    exact hunheld t' hr'
  · refine ⟨fun r' hr' => ?_, (h.placed t).chained, nofun, fun r' hr' => ?_, fun _ => htls,
      fun hin => ?_, nofun⟩
    · cases hr'
      show ((s.setRecord _ _).record _).inUse = true
      rw [setRecord_self]
    · cases hr'
      exact hchain
    · obtain ⟨r', htls', -⟩ := (h.placed t).inside hin
      rw [htls] at htls'
      cases htls'
  · cases hr'
    exact hunheld t'

theorem Records.attachClear (h : Records s) {r : Nat} (pc : (s.thread t).pc = .attachTaken r) :
    Records
      ((s.setRecord r { s.record r with active := false }).setThread t
        { s.thread t with pc := .idle, tls := some r }) := by
  have hchain := (h.placed t).taken r pc
  have htls := (h.placed t).attaching (by rw [pc]; rfl)
  have hheld : (s.thread t).holds = some r := by
    unfold Thread.holds
    rw [pc]
    rfl
  refine h.move rfl (fun _ => id) (h.written hheld _) ?_ (fun r' hr' => ?_)
    (h.known_set _ (.inr (h.chain r hchain))) h.chain
  · refine ⟨fun r' hr' => ?_, fun r' hr' => ?_, nofun, nofun, nofun, fun hin => ?_, nofun⟩
    · cases hr'
      show ((s.setRecord r _).record r).inUse = true
      rw [setRecord_self]
      exact (h.placed t).used r hheld
    · cases hr'
      exact hchain
    · obtain ⟨r', htls', -⟩ := (h.placed t).inside hin
      rw [htls] at htls'
      cases htls'
  · cases hr'
    exact h.apart hheld

theorem Records.attachNew (h : Records s) (pc : (s.thread t).pc = .attachWalk []) :
    Records
      ({ s.setRecord s.records ⟨0, false, true⟩ with records := s.records + 1 }.goto t
        (.attachPush s.records s.head)) := by
  have htls := (h.placed t).attaching (by rw [pc]; rfl)
  have hunheld : ∀ t', (s.thread t').holds ≠ some s.records := fun t' hr =>
    Nat.lt_irrefl _ (h.known _ ((h.placed t').used _ hr))
  refine h.move rfl (fun _ => id) (fun t' _ r' hr' => ?_) ?_ (fun r' hr' t' _ => ?_)
    (fun r' hr' => ?_) fun r' hr' => Nat.lt_succ_of_lt (h.chain r' hr')
  · refine Function.update_of_ne ?_ ..
    rintro rfl
    exact hunheld t' hr'
  · refine ⟨fun r' hr' => ?_, (h.placed t).chained, nofun, nofun, fun _ => htls, fun hin => ?_,
      nofun⟩
    · cases hr'
      show ((s.setRecord _ _).record _).inUse = true
      rw [setRecord_self]
    · obtain ⟨r', htls', -⟩ := (h.placed t).inside hin
      rw [htls] at htls'
      cases htls'
  · cases hr'
    exact hunheld t'
  · by_cases hrr : r' = s.records
    · rw [hrr]
      exact Nat.lt_succ_self _
    · have hold : (Function.update s.record s.records ⟨0, false, true⟩ r').inUse = true := hr'
      rw [Function.update_of_ne hrr] at hold
      exact Nat.lt_succ_of_lt (h.known r' hold)

theorem Records.attachPush (h : Records s) {r : Nat} {l : List Nat}
    (pc : (s.thread t).pc = .attachPush r l) :
    Records
      ({ s with head := r :: s.head }.setThread t
        { s.thread t with pc := .idle, tls := some r }) := by
  have htls := (h.placed t).attaching (by rw [pc]; rfl)
  have hheld : (s.thread t).holds = some r := by
    unfold Thread.holds
    rw [pc]
    rfl
  refine h.move rfl (fun _ => List.mem_cons_of_mem _) (fun _ _ _ _ => rfl) ?_ (fun r' hr' => ?_)
    h.known (fun r' hr' => ?_)
  · refine ⟨fun r' hr' => ?_, fun r' hr' => ?_, nofun, nofun, nofun, fun hin => ?_, nofun⟩
    · cases hr'
      exact (h.placed t).used r hheld
    · cases hr'
      exact List.mem_cons_self
    · obtain ⟨r', htls', -⟩ := (h.placed t).inside hin
      rw [htls] at htls'
      cases htls'
  · cases hr'
    exact h.apart hheld
  · rcases List.mem_cons.mp hr' with rfl | hr'
    · exact h.known _ ((h.placed t).used _ hheld)
    · exact h.chain r' hr'

/-- A walk to a free record goes on, or the push of a new one is tried again. -/
theorem Records.attachOn (h : Records s) {pc : Pc}
    (hclaimed : pc.claimed = (s.thread t).pc.claimed) (hattaching : pc.attaching = true)
    (htls : (s.thread t).tls = none) (hwalk : ∀ rest, pc = .attachWalk rest → ∀ r ∈ rest, r ∈ s.head)
    (htaken : ∀ r, pc ≠ .attachTaken r) : Records (s.goto t pc) := by
  have hholds : ({ s.thread t with pc := pc } : Thread).holds = (s.thread t).holds := by
    unfold Thread.holds
    rw [hclaimed]
  have houtside : pc.outside = false := by
    cases pc <;> first | rfl | exact Bool.noConfusion hattaching
  refine h.move rfl (fun _ => id) (fun _ _ _ _ => rfl) ?_ (fun r hr => ?_) h.known h.chain
  · refine ⟨fun r hr => ?_, (h.placed t).chained, hwalk, fun r hr => absurd hr (htaken r),
      fun _ => htls, (h.placed t).inside, fun hpc => ?_⟩
    · rw [hholds] at hr
      exact (h.placed t).used r hr
    · exact absurd hpc (by simp [houtside])
  · rw [hholds] at hr
    exact h.apart hr

theorem Records.detachRelease (h : Records s) {r : Nat}
    (pc : (s.thread t).pc = .detachRelease) (htls : (s.thread t).tls = some r) :
    Records
      ((s.setRecord r { s.record r with inUse := false }).setThread t
        { s.thread t with pc := .idle, tls := none }) := by
  have hheld := (h.placed t).holds_of_tls htls
  refine h.move rfl (fun _ => id) (h.written hheld _) ?_ (fun r' hr' => by cases hr')
    (h.known_set _ (.inl ((h.placed t).used r hheld))) h.chain
  refine ⟨nofun, nofun, nofun, nofun, nofun, fun hin => ?_, nofun⟩
  have hinside : (s.thread t).inside = true := hin
  rw [(h.placed t).outside (by rw [pc]; rfl)] at hinside
  cases hinside

/-! ### Every step -/

theorem step_records (h : Records s) (hstep : Step s t e s') : Records s' := by
  have hgoto : ∀ {t : Nat} {pc : Pc}, (s.thread t).pc.attaching = false → pc.attaching = false →
      pc.outside = false → Records (s.goto t pc) := fun hold hnew houtside =>
    h.goto rfl rfl rfl rfl hold hnew (by simp [houtside])
  cases hstep with
  | attach pc fresh =>
      refine h.attachOn (by rw [pc]; rfl) rfl fresh (fun rest hrest => ?_) nofun
      cases hrest
      exact fun _ => id
  | attachTry r rest pc used =>
      have htls := (h.placed t).attaching (by rw [pc]; rfl)
      refine h.attachOn (by rw [pc]; rfl) rfl htls (fun rest' hrest => ?_) nofun
      cases hrest
      exact fun r' hr' => (h.placed t).walking _ pc r' (List.mem_cons_of_mem _ hr')
  | attachTake r rest pc free => exact h.attachTake pc free
  | attachClear r pc => exact h.attachClear pc
  | attachNew pc => exact h.attachNew pc
  | attachPush r pc => exact h.attachPush pc
  | attachRetry r l pc =>
      exact h.attachOn (by rw [pc]; rfl) rfl ((h.placed t).attaching (by rw [pc]; rfl)) nofun nofun
  | detach r pc tls => exact h.write rfl rfl rfl rfl tls rfl rfl nofun fun _ => rfl
  | detachOrphans pc =>
      have hin := (h.placed t).outside (by rw [pc]; rfl)
      split
      · exact h.goto rfl rfl rfl rfl (by rw [pc]; rfl) rfl fun _ => hin
      · exact h.goto rfl rfl rfl rfl (by rw [pc]; rfl) rfl fun _ => hin
  | detachRelease r pc tls => exact h.detachRelease pc tls
  | enter r pc tls outside => exact h.goto rfl rfl rfl rfl (by rw [pc]; rfl) rfl fun _ => outside
  | enterEpoch r e pc tls =>
      have hin := (h.placed t).outside (by rw [pc]; rfl)
      have hnever : (s.thread t).inside = true → (s.record r).active = true := by
        rw [hin]
        exact nofun
      exact h.write rfl rfl rfl rfl tls rfl rfl hnever fun _ => hin
  | enterActive r pc tls => exact h.write rfl rfl rfl rfl tls rfl rfl (fun _ => rfl) nofun
  | leave r pc tls => exact h.write rfl rfl rfl rfl tls (by rw [pc]; rfl) rfl nofun fun _ => rfl
  | retire p pc fresh =>
      exact h.goto rfl rfl rfl rfl (by rw [pc]; rfl) (by rw [pc]; rfl) (by rw [pc]; nofun)
  | tick pc | rescan pc | scanFirst m pc | scanSafe m began pc | disposeEnd pc =>
      exact hgoto (by rw [pc]; rfl) rfl rfl
  | scanInUse m r which rest pc | scanActive m r which rest pc =>
      exact hgoto (by rw [pc]; rfl) (by split <;> rfl) (by split <;> rfl)
  | scanEpoch m r which rest pc => exact hgoto (by rw [pc]; rfl) rfl rfl
  | compare e pc => exact hgoto (by rw [pc]; rfl) (by split <;> rfl) (by split <;> rfl)
  | countOrphans safe began pc =>
      exact hgoto (by rw [pc]; rfl) (by split <;> rfl) (by split <;> rfl)
  | advance pc | adopt safe began pc | dispose x rest pc =>
      exact h.goto rfl rfl rfl rfl (by rw [pc]; rfl) rfl nofun
  | sweepDelete safe began kept rest x pc =>
      exact h.goto rfl rfl rfl rfl (by rw [pc]; rfl) (by rw [pc]; rfl) (by rw [pc]; nofun)
  | sweepKeep safe began kept rest x pc | sweepEnd safe began kept pc =>
      exact h.goto rfl rfl rfl rfl (by rw [pc]; rfl) rfl nofun

theorem records_of_runs (h : Runs ok s) : Records s :=
  h.holds (fun hs => hs ▸ records_new) fun _ ih hstep _ => step_records ih hstep

end Uvent.Reclaim.Qsbr
