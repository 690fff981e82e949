import Uvent.Reclaim.Hazard

/-!
# The records of a hazard domain

A record belongs to one thread at a time, from the `compare_exchange` on `active` on, and is on
the chain that a scan walks.  What a thread does to a record it does to its own.
-/

namespace Uvent.Reclaim.Hazard

def Pc.acquiring : Pc → Bool
  | .acquireWalk _ | .acquireTry .. | .acquirePush .. => true
  | _ => false

def Thread.holds (th : Thread) : Option Nat :=
  match th.pc with
  | .acquirePush r _ => some r
  | _ => th.tls

def Pc.reclaim : Pc → Option (Which × List Nat)
  | .collect which _ hz _ | .collectSlot which _ hz _ _ _ | .sift which _ hz => some (which, hz)
  | _ => none

def Pc.locks : Pc → Bool
  | .collect .orphans .. | .collectSlot .orphans .. | .sift .orphans .. | .unlock _ => true
  | _ => false

variable {s s' : State} {t : Nat} {th : Thread} {e : Event} {head head' : List Nat}
  {active active' : Nat → Bool}

structure Placed (head : List Nat) (active : Nat → Bool) (th : Thread) : Prop where
  active : ∀ r, th.holds = some r → active r = true
  chained : ∀ r, th.tls = some r → r ∈ head
  walking : ∀ rest, th.pc = .acquireWalk rest → ∀ r ∈ rest, r ∈ head
  trying : ∀ r rest, th.pc = .acquireTry r rest → ∀ r' ∈ r :: rest, r' ∈ head
  acquiring : th.pc.acquiring = true → th.tls = none

def State.inUse (s : State) (r : Nat) : Bool := (s.record r).active

structure Records (s : State) : Prop where
  placed : ∀ t, Placed s.head s.inUse (s.thread t)
  unique : ∀ t t' r, (s.thread t).holds = some r → (s.thread t').holds = some r → t = t'
  known : ∀ r, s.inUse r = true → r < s.records
  chain : ∀ r ∈ s.head, r < s.records
  mutex : ∀ t, (s.thread t).pc.locks = true → s.orphanMu = some t

theorem records_new : Records .new where
  placed _ := ⟨nofun, nofun, nofun, nofun, fun _ => rfl⟩
  unique _ _ _ := nofun
  known _ := nofun
  chain _ := nofun
  mutex _ := nofun

theorem Thread.holds_of_bound (h : th.pc.acquiring = false) : th.holds = th.tls := by
  unfold Thread.holds
  cases hpc : th.pc with
  | acquirePush r l =>
      rw [hpc] at h
      exact Bool.noConfusion h
  | _ => rfl

theorem Placed.holds_of_tls (h : Placed head active th) {r : Nat} (htls : th.tls = some r) :
    th.holds = some r := by
  rw [Thread.holds_of_bound, htls]
  by_contra hcontra
  rw [h.acquiring ((Bool.not_eq_false _).mp hcontra)] at htls
  cases htls

/-- The record a thread is attached with is on the chain and active. -/
theorem Records.bound (h : Records s) {r : Nat} (htls : (s.thread t).tls = some r) :
    r ∈ s.head ∧ (s.record r).active = true :=
  ⟨(h.placed t).chained r htls, (h.placed t).active r ((h.placed t).holds_of_tls htls)⟩

theorem Records.tls_unique (h : Records s) {t' r : Nat} (htls : (s.thread t).tls = some r)
    (htls' : (s.thread t').tls = some r) : t = t' :=
  h.unique t t' r ((h.placed t).holds_of_tls htls) ((h.placed t').holds_of_tls htls')

/-- The others keep what they know when their records stay active. -/
theorem Placed.others (h : Placed head active th) (hhead : ∀ r ∈ head, r ∈ head')
    (hactive : ∀ r, th.holds = some r → active' r = active r) : Placed head' active' th where
  active r hr := by
    rw [hactive r hr]
    exact h.active r hr
  chained r hr := hhead r (h.chained r hr)
  walking rest hpc r hr := hhead r (h.walking rest hpc r hr)
  trying r rest hpc r' hr := hhead r' (h.trying r rest hpc r' hr)
  acquiring := h.acquiring

theorem Records.move (h : Records s) (hthread : s'.thread = Function.update s.thread t th)
    (hhead : ∀ r ∈ s.head, r ∈ s'.head)
    (hactive : ∀ t', t' ≠ t → ∀ r, (s.thread t').holds = some r → s'.inUse r = s.inUse r)
    (hplaced : Placed s'.head s'.inUse th)
    (hholds : ∀ r, th.holds = some r → ∀ t', t' ≠ t → (s.thread t').holds ≠ some r)
    (hknown : ∀ r, s'.inUse r = true → r < s'.records) (hchain : ∀ r ∈ s'.head, r < s'.records)
    (hmutex : th.pc.locks = true → s'.orphanMu = some t)
    (hothers : ∀ t', t' ≠ t → s.orphanMu = some t' → s'.orphanMu = some t') : Records s' := by
  have hself : s'.thread t = th := by rw [hthread, Function.update_self]
  have hother : ∀ t', t' ≠ t → s'.thread t' = s.thread t' := fun t' ht => by
    rw [hthread, Function.update_of_ne ht]
  refine ⟨fun t' => ?_, fun t₁ t₂ r h₁ h₂ => ?_, hknown, hchain, fun t' hlocks => ?_⟩
  · by_cases ht : t' = t
    · rw [ht, hself]
      exact hplaced
    · rw [hother t' ht]
      exact (h.placed t').others hhead (hactive t' ht)
  · by_cases ht₁ : t₁ = t
    · by_cases ht₂ : t₂ = t
      · rw [ht₁, ht₂]
      · rw [ht₁, hself] at h₁
        rw [hother t₂ ht₂] at h₂
        exact absurd h₂ (hholds r h₁ t₂ ht₂)
    · rw [hother t₁ ht₁] at h₁
      by_cases ht₂ : t₂ = t
      · rw [ht₂, hself] at h₂
        exact absurd h₁ (hholds r h₂ t₁ ht₁)
      · rw [hother t₂ ht₂] at h₂
        exact h.unique t₁ t₂ r h₁ h₂
  · by_cases ht : t' = t
    · rw [ht, hself] at hlocks
      rw [ht]
      exact hmutex hlocks
    · rw [hother t' ht] at hlocks
      exact hothers t' ht (h.mutex t' hlocks)

theorem Records.apart (h : Records s) {r : Nat} (hr : (s.thread t).holds = some r) (t' : Nat)
    (ht : t' ≠ t) : (s.thread t').holds ≠ some r :=
  fun hr' => ht (h.unique t' t r hr' hr)

/-- A thread that acquires no record goes on, and no record becomes active or inactive. -/
theorem Records.go (h : Records s) {pc : Pc}
    (hthread : s'.thread = Function.update s.thread t { s.thread t with pc := pc })
    (hhead : s'.head = s.head) (hactive : s'.inUse = s.inUse) (hrecords : s'.records = s.records)
    (hold : (s.thread t).pc.acquiring = false) (hnew : pc.acquiring = false)
    (hmutex : pc.locks = true → s'.orphanMu = some t)
    (hothers : ∀ t', t' ≠ t → s.orphanMu = some t' → s'.orphanMu = some t') : Records s' := by
  have hholds : ({ s.thread t with pc := pc } : Thread).holds = (s.thread t).tls :=
    Thread.holds_of_bound hnew
  refine h.move hthread (fun r hr => hhead ▸ hr) (fun t' _ r _ => by rw [hactive]) ?_ ?_ ?_ ?_
    hmutex hothers
  · rw [hhead, hactive]
    refine ⟨fun r hr => ?_, (h.placed t).chained, fun rest hpc => ?_, fun r rest hpc => ?_,
      fun hpc => ?_⟩
    · rw [hholds] at hr
      exact (h.placed t).active r ((Thread.holds_of_bound hold).trans hr)
    · have hwalk : pc = .acquireWalk rest := hpc
      rw [hwalk] at hnew
      exact Bool.noConfusion hnew
    · have htry : pc = .acquireTry r rest := hpc
      rw [htry] at hnew
      exact Bool.noConfusion hnew
    · exact absurd hpc (by simp [hnew])
  · intro r hr
    rw [hholds] at hr
    exact h.apart ((Thread.holds_of_bound hold).trans hr)
  · rw [hactive, hrecords]
    exact h.known
  · rw [hhead, hrecords]
    exact h.chain

theorem Records.acquireOn (h : Records s) {pc : Pc} (htls : (s.thread t).tls = none)
    (hholds : ({ s.thread t with pc := pc } : Thread).holds = (s.thread t).holds)
    (hlocks : pc.locks = false) (hwalk : ∀ rest, pc = .acquireWalk rest → ∀ r ∈ rest, r ∈ s.head)
    (htry : ∀ r rest, pc = .acquireTry r rest → ∀ r' ∈ r :: rest, r' ∈ s.head) :
    Records (s.goto t pc) := by
  refine h.move rfl (fun _ => id) (fun _ _ _ _ => rfl) ?_ (fun r hr => ?_) h.known h.chain
    (by simp [hlocks]) fun _ _ => id
  · refine ⟨fun r hr => ?_, (h.placed t).chained, hwalk, htry, fun _ => htls⟩
    rw [hholds] at hr
    exact (h.placed t).active r hr
  · rw [hholds] at hr
    exact h.apart hr

theorem inUse_update {r : Nat} {x : Record} (hrecord : s'.record = Function.update s.record r x)
    (hx : x.active = (s.record r).active) : s'.inUse = s.inUse := by
  funext r'
  unfold State.inUse
  rw [hrecord]
  by_cases hr : r' = r
  · rw [hr, Function.update_self, hx]
  · rw [Function.update_of_ne hr]

theorem Records.acquireTake (h : Records s) {r : Nat} {rest : List Nat}
    (pc : (s.thread t).pc = .acquireTry r rest) (free : (s.record r).active = false) :
    Records ((s.setRecord r { s.record r with active := true }).setRec t .idle (some r)) := by
  have hchain := (h.placed t).trying r rest pc r List.mem_cons_self
  have hunheld : ∀ t', (s.thread t').holds ≠ some r := by
    intro t' hr
    have hactive := (h.placed t').active r hr
    unfold State.inUse at hactive
    rw [free] at hactive
    cases hactive
  have hself : ((s.setRecord r { s.record r with active := true }).setRec t .idle
      (some r)).inUse r = true := by
    show (Function.update s.record r _ r).active = true
    rw [Function.update_self]
  have hother : ∀ r', r' ≠ r → ((s.setRecord r { s.record r with active := true }).setRec t .idle
      (some r)).inUse r' = s.inUse r' := fun r' hr =>
    congrArg Record.active (Function.update_of_ne hr ..)
  refine h.move rfl (fun _ => id) (fun t' _ r' hr' => hother r' ?_) ?_ (fun r' hr' t' _ => ?_)
    (fun r' hr' => ?_) h.chain nofun fun _ _ => id
  · rintro rfl
    exact hunheld t' hr'
  · refine ⟨fun r' hr' => ?_, fun r' hr' => ?_, nofun, nofun, nofun⟩
    · cases hr'
      exact hself
    · cases hr'
      exact hchain
  · cases hr'
    exact hunheld t'
  · by_cases hr : r' = r
    · rw [hr]
      exact h.chain r hchain
    · rw [hother r' hr] at hr'
      exact h.known r' hr'

theorem Records.acquireNew (h : Records s) (pc : (s.thread t).pc = .acquireWalk []) :
    Records
      ({ s.setRecord s.records { Record.new with active := true } with
        records := s.records + 1 }.goto t (.acquirePush s.records s.head)) := by
  have htls := (h.placed t).acquiring (by rw [pc]; rfl)
  have hunheld : ∀ t', (s.thread t').holds ≠ some s.records := fun t' hr =>
    Nat.lt_irrefl _ (h.known _ ((h.placed t').active _ hr))
  have hself : (Function.update s.record s.records { Record.new with active := true }
      s.records).active = true := by rw [Function.update_self]
  refine h.move rfl (fun _ => id) (fun t' _ r' hr' => ?_) ?_ (fun r' hr' t' _ => ?_)
    (fun r' hr' => ?_) (fun r' hr' => Nat.lt_succ_of_lt (h.chain r' hr')) nofun fun _ _ => id
  · refine congrArg Record.active (Function.update_of_ne ?_ ..)
    rintro rfl
    exact hunheld t' hr'
  · refine ⟨fun r' hr' => ?_, (h.placed t).chained, nofun, nofun, fun _ => htls⟩
    cases hr'
    exact hself
  · cases hr'
    exact hunheld t'
  · by_cases hr : r' = s.records
    · rw [hr]
      exact Nat.lt_succ_self _
    · have hold : (Function.update s.record s.records { Record.new with active := true }
          r').active = true := hr'
      rw [Function.update_of_ne hr] at hold
      exact Nat.lt_succ_of_lt (h.known r' hold)

theorem Records.acquirePush (h : Records s) {r : Nat} {l : List Nat}
    (pc : (s.thread t).pc = .acquirePush r l) :
    Records ({ s with head := r :: s.head }.setRec t .acquireCount (some r)) := by
  have hheld : (s.thread t).holds = some r := by
    unfold Thread.holds
    rw [pc]
  refine h.move rfl (fun _ => List.mem_cons_of_mem _) (fun _ _ _ _ => rfl) ?_ (fun r' hr' => ?_)
    h.known (fun r' hr' => ?_) nofun fun _ _ => id
  · refine ⟨fun r' hr' => ?_, fun r' hr' => ?_, nofun, nofun, nofun⟩
    · cases hr'
      exact (h.placed t).active r hheld
    · cases hr'
      exact List.mem_cons_self
  · cases hr'
    exact h.apart hheld
  · rcases List.mem_cons.mp hr' with rfl | hr'
    · exact h.known _ ((h.placed t).active _ hheld)
    · exact h.chain r' hr'

theorem Records.releaseRecord (h : Records s) {r : Nat} (htls : (s.thread t).tls = some r) :
    Records ((s.setRecord r { s.record r with active := false }).setRec t .idle none) := by
  have hheld := (h.placed t).holds_of_tls htls
  have hother : ∀ r', r' ≠ r → ((s.setRecord r { s.record r with active := false }).setRec t .idle
      none).inUse r' = s.inUse r' := fun r' hr =>
    congrArg Record.active (Function.update_of_ne hr ..)
  refine h.move rfl (fun _ => id) (fun t' ht r' hr' => hother r' ?_)
    ⟨nofun, nofun, nofun, nofun, fun _ => rfl⟩ nofun (fun r' hr' => ?_) h.chain nofun fun _ _ => id
  · rintro rfl
    exact h.apart hheld t' ht hr'
  · by_cases hr : r' = r
    · rw [hr]
      exact h.known r ((h.placed t).active r hheld)
    · rw [hother r' hr] at hr'
      exact h.known r' hr'

theorem Records.same (h : Records s) (hthread : s'.thread = s.thread) (hhead : s'.head = s.head)
    (hactive : s'.inUse = s.inUse) (hrecords : s'.records = s.records)
    (hmutex : s'.orphanMu = s.orphanMu) : Records s' := by
  refine ⟨?_, ?_, ?_, ?_, ?_⟩
  · rw [hthread, hhead, hactive]
    exact h.placed
  · rw [hthread]
    exact h.unique
  · rw [hactive, hrecords]
    exact h.known
  · rw [hhead, hrecords]
    exact h.chain
  · rw [hthread, hmutex]
    exact h.mutex

theorem setList_inUse (s : State) (r : Nat) (kept rest : List Retired) (which : Which) :
    (s.setList r kept rest which).inUse = s.inUse := by
  cases which with
  | own => exact inUse_update rfl rfl
  | orphans => rfl

theorem setList_rest (s : State) (r : Nat) (kept rest : List Retired) (which : Which) :
    (s.setList r kept rest which).thread = s.thread ∧
      (s.setList r kept rest which).head = s.head ∧
      (s.setList r kept rest which).records = s.records ∧
      (s.setList r kept rest which).orphanMu = s.orphanMu := by
  cases which <;> exact ⟨rfl, rfl, rfl, rfl⟩

/-- A thread that has no record to acquire goes on, and neither takes nor releases the mutex. -/
theorem Records.quiet (h : Records s) {pc : Pc} (hold : (s.thread t).pc.acquiring = false)
    (hnew : pc.acquiring = false) (hlocks : pc.locks = true → (s.thread t).pc.locks = true) :
    Records (s.goto t pc) :=
  h.go rfl rfl rfl rfl hold hnew (fun hpc => h.mutex t (hlocks hpc)) fun _ _ => id

theorem Records.acquire (h : Records s) (pc : (s.thread t).pc = .idle)
    (unbound : (s.thread t).tls = none) : Records (s.goto t (.acquireWalk s.head)) := by
  refine h.acquireOn unbound ?_ rfl (fun rest hrest => ?_) nofun
  · unfold Thread.holds
    rw [pc]
  · cases hrest
    exact fun _ => id

theorem Records.acquireLook (h : Records s) {r : Nat} {rest : List Nat}
    (pc : (s.thread t).pc = .acquireWalk (r :: rest)) :
    Records (s.goto t (if (s.record r).active then .acquireWalk rest else .acquireTry r rest)) := by
  have htls := (h.placed t).acquiring (by rw [pc]; rfl)
  have hchain := (h.placed t).walking _ pc
  split
  · refine h.acquireOn htls ?_ rfl (fun rest' hrest => ?_) nofun
    · unfold Thread.holds
      rw [pc]
    · cases hrest
      exact fun r' hr' => hchain r' (List.mem_cons_of_mem _ hr')
  · refine h.acquireOn htls ?_ rfl nofun fun r' rest' hrest => ?_
    · unfold Thread.holds
      rw [pc]
    · cases hrest
      exact hchain

theorem Records.acquireTaken (h : Records s) {r : Nat} {rest : List Nat}
    (pc : (s.thread t).pc = .acquireTry r rest) : Records (s.goto t (.acquireWalk rest)) := by
  have htls := (h.placed t).acquiring (by rw [pc]; rfl)
  have hchain := (h.placed t).trying r rest pc
  refine h.acquireOn htls ?_ rfl (fun rest' hrest => ?_) nofun
  · unfold Thread.holds
    rw [pc]
  · cases hrest
    exact fun r' hr' => hchain r' (List.mem_cons_of_mem _ hr')

theorem Records.tryLock (h : Records s) {leaving : Bool}
    (pc : (s.thread t).pc = .tryLock leaving) (unlocked : s.orphanMu = none) :
    Records ({ s with orphanMu := some t }.goto t
      (if s.orphans = [] then .unlock leaving else .collect .orphans leaving [] s.head)) := by
  refine h.go rfl rfl rfl rfl (by rw [pc]; rfl) (by split <;> rfl) (fun _ => rfl) ?_
  intro t' _ hlocked
  rw [unlocked] at hlocked
  cases hlocked

theorem Records.unlock (h : Records s) {leaving : Bool} (pc : (s.thread t).pc = .unlock leaving) :
    Records ({ s with orphanMu := none }.goto t (afterScan leaving)) := by
  have hlocked := h.mutex t (by rw [pc]; rfl)
  refine h.go rfl rfl rfl rfl (by rw [pc]; rfl) (by cases leaving <;> rfl)
    (by cases leaving <;> nofun) fun t' ht hother => ?_
  rw [hlocked] at hother
  exact absurd (Option.some.inj hother).symm ht

theorem step_records (h : Records s) (hstep : Step s t e s') : Records s' := by
  cases hstep with
  | store a v => exact h.same rfl rfl rfl rfl rfl
  | acquire pc unbound => exact h.acquire pc unbound
  | acquireLook r rest pc => exact h.acquireLook pc
  | acquireTaken r rest pc used => exact h.acquireTaken pc
  | acquireTake r rest pc free => exact h.acquireTake pc free
  | acquireNew pc => exact h.acquireNew pc
  | acquirePush r pc => exact h.acquirePush pc
  | acquireRetry r l pc =>
      refine h.acquireOn ((h.placed t).acquiring (by rw [pc]; rfl)) ?_ rfl nofun nofun
      unfold Thread.holds
      rw [pc]
  | acquireCount pc | protectFull a p gen pc | protectReturn result pc | protect r a pc bound
  | protectMiss r a p gen i pc bound more miss | scan r pc bound | release r pc bound
  | releaseNone r pc bound empty =>
      exact h.go rfl rfl rfl rfl (by rw [pc]; rfl) rfl nofun fun _ _ => id
  | protectLoad a pc | protectAgain a p i pc changed =>
      have hload : (afterLoad s a).acquiring = false ∧ (afterLoad s a).locks = false := by
        unfold afterLoad
        split <;> exact ⟨rfl, rfl⟩
      exact h.quiet (by rw [pc]; rfl) hload.1 (by simp [hload.2])
  | protectHit r a p gen i pc bound more hit | protectPublish r a p pc bound
  | protectValidate r a p i pc bound again | retire r p pc bound once
  | releaseOrphans r pc bound left unlocked | releaseSlot r i pc bound more =>
      exact h.go rfl rfl (inUse_update rfl rfl) rfl (by rw [pc]; rfl) rfl nofun fun _ _ => id
  | retireCount r pc bound =>
      exact h.quiet (by rw [pc]; rfl) (by split <;> rfl) (by split <;> nofun)
  | collect r which leaving hz rest pc =>
      refine h.quiet (by rw [pc]; rfl) (by split <;> rfl) fun hlocks => ?_
      rw [pc]
      cases which with
      | own => split at hlocks <;> cases hlocks
      | orphans => rfl
  | collectSlot r i which leaving hz rest pc more | collectNext r which leaving hz rest pc
  | collectEnd which leaving hz pc =>
      refine h.quiet (by rw [pc]; rfl) rfl fun hlocks => ?_
      rw [pc]
      cases which with
      | own => cases hlocks
      | orphans => rfl
  | siftKeep r which leaving hz x kept rest pc bound next hazard =>
      obtain ⟨hthread, hhead, hrecords, hmutex⟩ := setList_rest s r (kept ++ [x]) rest which
      exact h.same hthread hhead (setList_inUse ..) hrecords hmutex
  | siftDelete r which leaving hz x kept rest pc bound next free =>
      obtain ⟨hthread, hhead, hrecords, hmutex⟩ := setList_rest s r kept rest which
      exact h.same hthread hhead (setList_inUse s r kept rest which) hrecords hmutex
  | siftEnd r which leaving hz kept pc bound finished =>
      cases which with
      | own => exact h.go rfl rfl (inUse_update rfl rfl) rfl (by rw [pc]; rfl) rfl nofun fun _ _ => id
      | orphans =>
          have hlocked := h.mutex t (by rw [pc]; rfl)
          exact h.go rfl rfl rfl rfl (by rw [pc]; rfl) rfl (fun _ => hlocked) fun _ _ => id
  | tryLockFail leaving pc =>
      exact h.quiet (by rw [pc]; rfl) (by cases leaving <;> rfl) (by cases leaving <;> nofun)
  | tryLock leaving pc unlocked => exact h.tryLock pc unlocked
  | unlock leaving pc => exact h.unlock pc
  | releaseRecord r pc bound => exact h.releaseRecord bound

theorem records_of_runs {ok : State → Nat → Event → Prop} (h : Runs ok s) : Records s :=
  h.holds (fun hs => hs ▸ records_new) fun _ ih hstep _ => step_records ih hstep

end Uvent.Reclaim.Hazard
