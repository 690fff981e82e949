import Uvent.Reclaim.QsbrBooks
import Uvent.Reclaim.QsbrRecords

/-!
# The grace period

A thread inside a section announces an epoch that is not above that of any object retired
since it entered, and a scan that begins after an object was retired finds the announcement
of everybody who has been inside since then.  So the bound of a tick is not above the epoch of
an object that somebody may still use, unless the object was retired while the bound was
computed: orphans can be.
-/

namespace Uvent.Reclaim.Qsbr

/-- When a computation of `safe` began, what it is at most, and the records that it has yet to
look at. -/
def Pc.bound : Pc → Option (Nat × Nat × List Nat)
  | .scan (.safe began) m rest => some (began, m, rest)
  | .scanActive (.safe began) m r rest => some (began, m, r :: rest)
  | .scanEpoch (.safe began) m r rest => some (began, m, r :: rest)
  | .sweep safe began _ => some (began, safe, [])
  | .countOrphans safe began => some (began, safe, [])
  | .adopt safe began => some (began, safe, [])
  | _ => none

/-- Who has been inside since an object was retired before `began` is yet to be looked at, or
has an epoch that is not below `m`. -/
def Above (s : State) (began m : Nat) (todo : List Nat) : Prop :=
  ∀ p t n r, s.guarded p t = true → s.retiredAt p = some n → n < began →
    (s.thread t).tls = some r → r ∈ todo ∨ m ≤ (s.record r).epoch

structure Bounding (s : State) (th : Thread) : Prop where
  began : ∀ b m todo, th.pc.bound = some (b, m, todo) → b ≤ s.clock
  above : ∀ b m todo, th.pc.bound = some (b, m, todo) → Above s b m todo
  own : ∀ b m todo, th.pc.bound = some (b, m, todo) → ∀ x ∈ th.held, ∀ n,
    s.retiredAt x.p = some n → n < b
  disposed : ∀ l, th.pc = .dispose l → ∀ x ∈ l, ∀ t, s.guarded x.p t = false
  entering : ∀ e, th.pc = .enterEpoch e → e ≤ s.globalEpoch

/-- Who guards an object is inside, with an epoch that is not above that of the object. -/
structure Guard (s : State) (p t : Nat) : Prop where
  inside : (s.thread t).inside = true
  retired : ∃ n, s.retiredAt p = some n
  epoch : ∀ r, (s.thread t).tls = some r → (s.record r).epoch ≤ s.stamp p

structure Grace (s : State) : Prop where
  global : s.globalEpoch < epochs
  epoch : ∀ r, (s.record r).epoch ≤ s.globalEpoch
  time : ∀ p n, s.retiredAt p = some n → n < s.clock
  guard : ∀ p t, s.guarded p t = true → Guard s p t
  bounding : ∀ t, Bounding s (s.thread t)
  deleted : ∀ p ∈ s.deleted, ∀ t, s.guarded p t = false

variable {s s' : State} {t : Nat} {th : Thread} {e : Event}

theorem grace_new : Grace .new where
  global := by decide
  epoch _ := Nat.zero_le _
  time _ _ := nofun
  guard _ _ := nofun
  bounding _ := ⟨nofun, nofun, nofun, nofun, nofun⟩
  deleted _ := nofun

/-- A thread that computes no bound, disposes of nothing and does not enter. -/
theorem bounding_of_none (hbound : th.pc.bound = none) (hdispose : ∀ l, th.pc ≠ .dispose l)
    (henter : ∀ e, th.pc ≠ .enterEpoch e) : Bounding s th := by
  refine ⟨fun b m todo h => ?_, fun b m todo h => ?_, fun b m todo h => ?_,
    fun l h => absurd h (hdispose l), fun e h => absurd h (henter e)⟩
  all_goals
    rw [hbound] at h
    cases h

structure Shrinks (s s' : State) : Prop where
  guarded : ∀ p t, s'.guarded p t = true → s.guarded p t = true
  tls : ∀ p t, s'.guarded p t = true → (s'.thread t).tls = (s.thread t).tls
  epoch : ∀ p t r, s'.guarded p t = true → (s.thread t).tls = some r →
    (s'.record r).epoch = (s.record r).epoch
  retiredAt : s'.retiredAt = s.retiredAt
  clock : s'.clock = s.clock
  globalEpoch : s.globalEpoch ≤ s'.globalEpoch

theorem Shrinks.unguarded (h : Shrinks s s') {p t : Nat} (hp : s.guarded p t = false) :
    s'.guarded p t = false := by
  by_contra hcontra
  have hguarded := h.guarded p t ((Bool.not_eq_false _).mp hcontra)
  rw [hp] at hguarded
  cases hguarded

theorem Above.shrinks (h : Shrinks s s') {b m : Nat} {todo : List Nat} (ha : Above s b m todo) :
    Above s' b m todo := by
  intro p t n r hguarded hretired hn htls
  have hold := h.guarded p t hguarded
  rw [h.tls p t hguarded] at htls
  rw [h.retiredAt] at hretired
  rw [h.epoch p t r hguarded htls]
  exact ha p t n r hold hretired hn htls

theorem Bounding.shrinks (h : Shrinks s s') (hb : Bounding s th) : Bounding s' th where
  began b m todo hbound := h.clock ▸ hb.began b m todo hbound
  above b m todo hbound := (hb.above b m todo hbound).shrinks h
  own b m todo hbound := by
    rw [h.retiredAt]
    exact hb.own b m todo hbound
  disposed l hpc x hx t := h.unguarded (hb.disposed l hpc x hx t)
  entering e hpc := Nat.le_trans (hb.entering e hpc) h.globalEpoch

theorem Grace.move (h : Grace s) (hthread : s'.thread = Function.update s.thread t th)
    (hshrinks : Shrinks s s') (hstamp : s'.stamp = s.stamp)
    (hinside : ∀ p t, s'.guarded p t = true → (s'.thread t).inside = true)
    (hglobal : s'.globalEpoch < epochs) (hepoch : ∀ r, (s'.record r).epoch ≤ s'.globalEpoch)
    (hbounding : Bounding s th) (hdeleted : ∀ p ∈ s'.deleted, ∀ t, s.guarded p t = false) :
    Grace s' := by
  refine ⟨hglobal, hepoch, fun p n hp => ?_, fun p t' hp => ⟨hinside p t' hp, ?_, fun r hr => ?_⟩,
    fun t' => ?_, fun p hp t' => hshrinks.unguarded (hdeleted p hp t')⟩
  · rw [hshrinks.retiredAt] at hp
    exact hshrinks.clock ▸ h.time p n hp
  · rw [hshrinks.retiredAt]
    exact (h.guard p t' (hshrinks.guarded p t' hp)).retired
  · rw [hshrinks.tls p t' hp] at hr
    rw [hshrinks.epoch p t' r hp hr, hstamp]
    exact (h.guard p t' (hshrinks.guarded p t' hp)).epoch r hr
  · rw [hthread]
    by_cases ht : t' = t
    · rw [ht, Function.update_self]
      exact hbounding.shrinks hshrinks
    · rw [Function.update_of_ne ht]
      exact (h.bounding t').shrinks hshrinks

theorem Shrinks.of_goto (hthread : s'.thread = Function.update s.thread t th)
    (hguarded : s'.guarded = s.guarded) (htls : th.tls = (s.thread t).tls)
    (hrecord : s'.record = s.record) (hretired : s'.retiredAt = s.retiredAt)
    (hclock : s'.clock = s.clock) (hglobal : s.globalEpoch ≤ s'.globalEpoch) : Shrinks s s' := by
  refine ⟨fun p t' hp => hguarded ▸ hp, fun p t' _ => ?_, fun _ _ r _ _ => by rw [hrecord], hretired,
    hclock, hglobal⟩
  rw [hthread]
  by_cases ht : t' = t
  · rw [ht, Function.update_self, htls]
  · rw [Function.update_of_ne ht]

theorem Grace.goto (h : Grace s) {pc : Pc} {retired : List Retired}
    (hthread : s'.thread =
      Function.update s.thread t { s.thread t with pc := pc, retired := retired })
    (hguarded : s'.guarded = s.guarded) (hrecord : s'.record = s.record)
    (hretired : s'.retiredAt = s.retiredAt) (hstamp : s'.stamp = s.stamp)
    (hclock : s'.clock = s.clock) (hglobal : s'.globalEpoch = s.globalEpoch)
    (hbounding : Bounding s { s.thread t with pc := pc, retired := retired })
    (hdeleted : ∀ p ∈ s'.deleted, ∀ t, s.guarded p t = false) : Grace s' := by
  refine h.move hthread (.of_goto hthread hguarded rfl hrecord hretired hclock (Nat.le_of_eq hglobal.symm)) hstamp
    (fun p t' hp => ?_) (hglobal ▸ h.global) ?_ hbounding hdeleted
  · rw [hguarded] at hp
    have hin := (h.guard p t' hp).inside
    rw [hthread]
    by_cases ht : t' = t
    · rw [ht, Function.update_self]
      exact ht ▸ hin
    · rw [Function.update_of_ne ht]
      exact hin
  · rw [hrecord, hglobal]
    exact h.epoch

theorem Grace.outside (h : Grace s) (hthread : s'.thread = Function.update s.thread t th)
    (hout : (s.thread t).inside = false) (hguarded : s'.guarded = s.guarded)
    (hrecord : ∀ t', t' ≠ t → ∀ r, (s.thread t').tls = some r →
      (s'.record r).epoch = (s.record r).epoch)
    (hepoch : ∀ r, (s'.record r).epoch ≤ s.globalEpoch) (hretired : s'.retiredAt = s.retiredAt)
    (hstamp : s'.stamp = s.stamp) (hclock : s'.clock = s.clock)
    (hglobal : s'.globalEpoch = s.globalEpoch) (hdeleted : s'.deleted = s.deleted)
    (hbounding : Bounding s th) : Grace s' := by
  have hother : ∀ p t', s'.guarded p t' = true → t' ≠ t := by
    rintro p t' hp rfl
    rw [hguarded] at hp
    have hin := (h.guard p t' hp).inside
    rw [hout] at hin
    cases hin
  refine h.move hthread ⟨fun p t' hp => hguarded ▸ hp, fun p t' hp => ?_, fun p t' r hp => ?_, hretired,
    hclock, Nat.le_of_eq hglobal.symm⟩ hstamp (fun p t' hp => ?_) (hglobal ▸ h.global)
    (hglobal ▸ hepoch) hbounding (hdeleted ▸ h.deleted)
  · rw [hthread, Function.update_of_ne (hother p t' hp)]
  · exact hrecord t' (hother p t' hp) r
  · rw [hthread, Function.update_of_ne (hother p t' hp)]
    exact (h.guard p t' (hguarded ▸ hp)).inside

theorem epoch_update {record : Nat → ThreadState} {r : Nat} {x : ThreadState}
    (hx : x.epoch = (record r).epoch) (r' : Nat) :
    (Function.update record r x r').epoch = (record r').epoch := by
  by_cases hr : r' = r
  · rw [hr, Function.update_self, hx]
  · rw [Function.update_of_ne hr]

theorem Grace.write (h : Grace s) {r : Nat} {x : ThreadState}
    (hthread : s'.thread = Function.update s.thread t th) (hout : (s.thread t).inside = false)
    (hrecord : s'.record = Function.update s.record r x) (hx : x.epoch = (s.record r).epoch)
    (hguarded : s'.guarded = s.guarded) (hretired : s'.retiredAt = s.retiredAt)
    (hstamp : s'.stamp = s.stamp) (hclock : s'.clock = s.clock)
    (hglobal : s'.globalEpoch = s.globalEpoch) (hdeleted : s'.deleted = s.deleted)
    (hbounding : Bounding s th) : Grace s' := by
  have hsame : ∀ r', (s'.record r').epoch = (s.record r').epoch := by
    rw [hrecord]
    exact epoch_update hx
  exact h.outside hthread hout hguarded (fun _ _ r' _ => hsame r')
    (fun r' => Nat.le_trans (Nat.le_of_eq (hsame r')) (h.epoch r')) hretired hstamp hclock hglobal
    hdeleted hbounding

theorem Grace.deactivate (h : Grace s) {r : Nat} {pc : Pc}
    (hbounding : Bounding s { s.thread t with pc := pc, inside := false }) :
    Grace ((s.deactivate t r).setThread t { s.thread t with pc := pc, inside := false }) := by
  have hleft : ∀ {p t'}, (if t' = t then false else s.guarded p t') = true →
      t' ≠ t ∧ s.guarded p t' = true := by
    intro p t' hp
    split at hp
    · cases hp
    · exact ⟨‹_›, hp⟩
  have hepoch : ∀ r', (Function.update s.record r { s.record r with active := false } r').epoch =
      (s.record r').epoch := epoch_update rfl
  refine h.move rfl ⟨fun p t' hp => (hleft hp).2, fun p t' hp => ?_, fun p t' r' _ _ => hepoch r',
    rfl, rfl, Nat.le_refl _⟩ rfl (fun p t' hp => ?_) h.global (fun r' => ?_) hbounding h.deleted
  · exact congrArg Thread.tls (Function.update_of_ne (hleft hp).1 ..)
  · exact (congrArg Thread.inside (Function.update_of_ne (hleft hp).1 ..)).trans
      (h.guard p t' (hleft hp).2).inside
  · exact Nat.le_trans (Nat.le_of_eq (hepoch r')) (h.epoch r')

theorem retire_thread (s : State) (t p t' : Nat) :
    ((s.retire t p).thread t').tls = (s.thread t').tls ∧
      ((s.retire t p).thread t').inside = (s.thread t').inside ∧
      ((s.retire t p).thread t').pc = (s.thread t').pc := by
  have hthread : (s.retire t p).thread = Function.update s.thread t _ := rfl
  rw [hthread]
  by_cases ht : t' = t
  · rw [ht, Function.update_self]
    exact ⟨rfl, rfl, rfl⟩
  · rw [Function.update_of_ne ht]
    exact ⟨rfl, rfl, rfl⟩

theorem Grace.retire (h : Grace s) (hbooks : Books s) {p : Nat} (fresh : s.retiredAt p = none)
    (pc : (s.thread t).pc = .idle) : Grace (s.retire t p) := by
  have hnew : ∀ b q, q ∈ s.boxes b → q ≠ p := by
    rintro b q hq rfl
    obtain ⟨n, hn⟩ := hbooks.known b q hq
    rw [fresh] at hn
    cases hn
  have hguarded : ∀ {q t'}, q ≠ p → (s.retire t p).guarded q t' = s.guarded q t' := fun hq =>
    congrFun (Function.update_of_ne hq ..) _
  have hretired : ∀ {q}, q ≠ p → (s.retire t p).retiredAt q = s.retiredAt q := fun hq =>
    Function.update_of_ne hq ..
  have hnow : (s.retire t p).retiredAt p = some s.clock := Function.update_self ..
  refine ⟨h.global, h.epoch, fun q n hq => ?_, fun q t' hq => ?_, fun t' => ?_, fun q hq t' => ?_⟩
  · show n < s.clock + 1
    by_cases hqp : q = p
    · rw [hqp, hnow] at hq
      cases hq
      exact Nat.lt_succ_self _
    · rw [hretired hqp] at hq
      exact Nat.lt_succ_of_lt (h.time q n hq)
  · by_cases hqp : q = p
    · subst hqp
      have hin : (s.thread t').inside = true :=
        (congrFun (Function.update_self ..) t').symm.trans hq
      refine ⟨(retire_thread s t q t').2.1.trans hin, ⟨_, hnow⟩, fun r _ => ?_⟩
      rw [show (s.retire t q).stamp q = s.globalEpoch from Function.update_self ..]
      exact h.epoch r
    · rw [hguarded hqp] at hq
      obtain ⟨hin, hold, hepoch⟩ := h.guard q t' hq
      refine ⟨(retire_thread s t p t').2.1.trans hin, ?_, fun r hr => ?_⟩
      · rw [hretired hqp]
        exact hold
      · rw [(retire_thread s t p t').1] at hr
        rw [show (s.retire t p).stamp q = s.stamp q from Function.update_of_ne hqp ..]
        exact hepoch r hr
  · by_cases ht : t' = t
    · have hpc : ((s.retire t p).thread t').pc = .idle := by rw [(retire_thread s t p t').2.2, ht, pc]
      exact bounding_of_none (by rw [hpc]; rfl) (by rw [hpc]; nofun) (by rw [hpc]; nofun)
    · rw [show (s.retire t p).thread t' = s.thread t' from Function.update_of_ne ht ..]
      have hb := h.bounding t'
      refine ⟨fun b m todo hbound => Nat.le_succ_of_le (hb.began b m todo hbound), ?_, ?_, ?_,
        hb.entering⟩
      · intro b m todo hbound q t₂ n r hq hn hlt hr
        have hqp : q ≠ p := by
          rintro rfl
          rw [hnow] at hn
          cases hn
          exact absurd (hb.began b m todo hbound) (Nat.not_le_of_lt hlt)
        rw [hguarded hqp] at hq
        rw [hretired hqp] at hn
        rw [(retire_thread s t p t₂).1] at hr
        exact hb.above b m todo hbound q t₂ n r hq hn hlt hr
      · intro b m todo hbound x hx n hn
        rw [hretired (hnew (.thread t') x.p (List.mem_map_of_mem hx))] at hn
        exact hb.own b m todo hbound x hx n hn
      · intro l hpc x hx t₂
        have hheld : x ∈ (s.thread t').held := by
          unfold Thread.held
          rw [hpc]
          exact List.mem_append_left _ hx
        rw [hguarded (hnew (.thread t') x.p (List.mem_map_of_mem hheld))]
        exact hb.disposed l hpc x hx t₂
  · rw [hguarded (hnew .deleted q hq)]
    exact h.deleted q hq t'

/-! ### Scans -/

/-- A scan begins: everybody who is inside is on the chain. -/
theorem above_head (hrecords : Records s) (b m : Nat) : Above s b m s.head :=
  fun _ t' _ r _ _ _ htls => .inl ((hrecords.placed t').chained r htls)

/-- A record that nobody inside holds is passed. -/
theorem Above.skip {b m r : Nat} {todo : List Nat} (ha : Above s b m (r :: todo))
    (hfree : ∀ p t', s.guarded p t' = true → (s.thread t').tls ≠ some r) : Above s b m todo := by
  intro p t' n r' hp hn hlt htls
  rcases ha p t' n r' hp hn hlt htls with hin | hle
  · rcases List.mem_cons.mp hin with rfl | hin
    · exact absurd htls (hfree p t' hp)
    · exact .inl hin
  · exact .inr hle

theorem Above.take {b m r : Nat} {todo : List Nat} (ha : Above s b m (r :: todo)) :
    Above s b (if (s.record r).epoch < m then (s.record r).epoch else m) todo := by
  intro p t' n r' hp hn hlt htls
  rcases ha p t' n r' hp hn hlt htls with hin | hle
  · rcases List.mem_cons.mp hin with rfl | hin
    · right
      split <;> omega
    · exact .inl hin
  · right
    split <;> omega

theorem Grace.minActive (h : Grace s) {b m : Nat} (ha : Above s b m []) :
    Above s b (s.minActive m) [] := by
  intro p t' n r hp hn hlt htls
  have hle := (ha p t' n r hp hn hlt htls).resolve_left List.not_mem_nil
  have hepoch := h.epoch r
  have hglobal := h.global
  right
  unfold State.minActive maxEpoch
  split <;> omega

/-- No object below the bound that was retired before the scan began is guarded. -/
theorem Grace.unguarded (h : Grace s) (hrecords : Records s) {b safe n : Nat} {x : Retired}
    (ha : Above s b safe []) (hstamp : x.epoch = s.stamp x.p) (hn : s.retiredAt x.p = some n)
    (hlt : n < b) (hold : x.epoch < safe) (t' : Nat) : s.guarded x.p t' = false := by
  by_contra hcontra
  have hguarded := (Bool.not_eq_false _).mp hcontra
  have hguard := h.guard x.p t' hguarded
  obtain ⟨r, htls, -⟩ := (hrecords.placed t').inside hguard.inside
  have hsafe := (ha x.p t' n r hguarded hn hlt htls).resolve_left List.not_mem_nil
  have hepoch := hguard.epoch r htls
  omega

/-! ### Going on -/

theorem Bounding.goto (hb : Bounding s th) {pc : Pc} {retired : List Retired} {b m m' : Nat}
    {todo todo' : List Nat} (hold : th.pc.bound = some (b, m, todo))
    (hnew : pc.bound = some (b, m', todo')) (ha : Above s b m todo → Above s b m' todo')
    (hheld : ∀ x ∈ pc.carried ++ retired, x ∈ th.held) (hdispose : ∀ l, pc ≠ .dispose l)
    (henter : ∀ e, pc ≠ .enterEpoch e) : Bounding s { th with pc := pc, retired := retired } := by
  have hself : ∀ {b₁ m₁ todo₁}, pc.bound = some (b₁, m₁, todo₁) →
      b₁ = b ∧ m₁ = m' ∧ todo₁ = todo' := by
    intro b₁ m₁ todo₁ hbound
    rw [hnew] at hbound
    cases hbound
    exact ⟨rfl, rfl, rfl⟩
  refine ⟨fun b₁ m₁ todo₁ hbound => ?_, fun b₁ m₁ todo₁ hbound => ?_,
    fun b₁ m₁ todo₁ hbound x hx => ?_, fun l hl => absurd hl (hdispose l),
    fun e he => absurd he (henter e)⟩
  · rw [(hself hbound).1]
    exact hb.began b m todo hold
  · obtain ⟨rfl, rfl, rfl⟩ := hself hbound
    exact ha (hb.above _ m todo hold)
  · rw [(hself hbound).1]
    exact hb.own b m todo hold x (hheld x hx)

theorem Grace.quiet (h : Grace s) {pc : Pc} (hbound : pc.bound = none)
    (hdispose : ∀ l, pc ≠ .dispose l) (henter : ∀ e, pc ≠ .enterEpoch e) : Grace (s.goto t pc) :=
  h.goto rfl rfl rfl rfl rfl rfl rfl (bounding_of_none hbound hdispose henter) h.deleted

theorem Grace.bounded (h : Grace s) {pc : Pc} {b m m' : Nat} {todo todo' : List Nat}
    (hold : (s.thread t).pc.bound = some (b, m, todo)) (hnew : pc.bound = some (b, m', todo'))
    (ha : Above s b m todo → Above s b m' todo') (hcarried : pc.carried = [])
    (hdispose : ∀ l, pc ≠ .dispose l) (henter : ∀ e, pc ≠ .enterEpoch e) : Grace (s.goto t pc) := by
  refine h.goto rfl rfl rfl rfl rfl rfl rfl ?_ h.deleted
  refine (h.bounding t).goto hold hnew ha (fun x hx => ?_) hdispose henter
  rw [hcarried] at hx
  exact List.mem_append_right _ hx

/-! ### Attaching and entering -/

theorem Records.outside_of_attaching (hrecords : Records s)
    (hattaching : (s.thread t).pc.attaching = true) : (s.thread t).inside = false := by
  have htls := (hrecords.placed t).attaching hattaching
  by_contra hcontra
  obtain ⟨r, hr, -⟩ := (hrecords.placed t).inside ((Bool.not_eq_false _).mp hcontra)
  rw [htls] at hr
  cases hr

theorem Grace.attachNew (h : Grace s) (hrecords : Records s)
    (pc : (s.thread t).pc = .attachWalk []) :
    Grace ({ s.setRecord s.records ⟨0, false, true⟩ with records := s.records + 1 }.goto t
      (.attachPush s.records s.head)) := by
  refine h.outside rfl (hrecords.outside_of_attaching (by rw [pc]; rfl)) rfl (fun t' _ r hr => ?_)
    (fun r => ?_) rfl rfl rfl rfl rfl (bounding_of_none rfl nofun nofun)
  · have hknown := hrecords.known r ((hrecords.placed t').used r
      ((hrecords.placed t').holds_of_tls hr))
    exact congrArg ThreadState.epoch (Function.update_of_ne (Nat.ne_of_lt hknown) ..)
  · show (Function.update s.record s.records ⟨0, false, true⟩ r).epoch ≤ s.globalEpoch
    by_cases hr : r = s.records
    · rw [hr, Function.update_self]
      exact Nat.zero_le _
    · rw [Function.update_of_ne hr]
      exact h.epoch r

theorem Grace.enterEpoch (h : Grace s) (hrecords : Records s) {r e : Nat}
    (pc : (s.thread t).pc = .enterEpoch e) (tls : (s.thread t).tls = some r) :
    Grace ((s.setRecord r { s.record r with epoch := e }).goto t .enterActive) := by
  have hle := (h.bounding t).entering e pc
  refine h.outside rfl ((hrecords.placed t).outside (by rw [pc]; rfl)) rfl
    (fun t' ht r' hr' => ?_) (fun r' => ?_) rfl rfl rfl rfl rfl
    (bounding_of_none rfl nofun nofun)
  · have hother := hrecords.written ((hrecords.placed t).holds_of_tls tls)
      { s.record r with epoch := e } t' ht r' ((hrecords.placed t').holds_of_tls hr')
    exact congrArg ThreadState.epoch hother
  · show (Function.update s.record r { s.record r with epoch := e } r').epoch ≤ s.globalEpoch
    by_cases hr : r' = r
    · rw [hr, Function.update_self]
      exact hle
    · rw [Function.update_of_ne hr]
      exact h.epoch r'

/-! ### The bound of a tick -/

theorem Records.free_of_unused (hrecords : Records s) {r : Nat}
    (hunused : (s.record r).inUse = false) (t' : Nat) : (s.thread t').tls ≠ some r := by
  intro htls
  have hused := (hrecords.placed t').used r ((hrecords.placed t').holds_of_tls htls)
  rw [hunused] at hused
  cases hused

theorem Grace.free_of_inactive (h : Grace s) (hrecords : Records s) {p t' r : Nat}
    (hinactive : (s.record r).active = false) (hp : s.guarded p t' = true) :
    (s.thread t').tls ≠ some r := by
  intro htls
  obtain ⟨r', hr', hactive⟩ := (hrecords.placed t').inside (h.guard p t' hp).inside
  rw [htls] at hr'
  cases hr'
  rw [hinactive] at hactive
  cases hactive

/-- A scan looks at a flag of a record, and passes the record if nobody inside has it. -/
theorem Grace.look (h : Grace s) {which : Scan} {m r : Nat} {rest : List Nat} {next : Pc}
    {flag : Bool}
    (hbound : ∀ began, which = .safe began → (s.thread t).pc.bound = some (began, m, r :: rest) ∧
      next.bound = some (began, m, r :: rest))
    (hfirst : which = .first → next.bound = none) (hcarried : next.carried = [])
    (hdispose : ∀ l, next ≠ .dispose l) (henter : ∀ e, next ≠ .enterEpoch e)
    (hfree : flag = false → ∀ p t', s.guarded p t' = true → (s.thread t').tls ≠ some r) :
    Grace (s.goto t (if flag then next else .scan which m rest)) := by
  cases flag with
  | true =>
      rw [if_pos rfl]
      cases which with
      | first => exact h.quiet (hfirst rfl) hdispose henter
      | safe began =>
          obtain ⟨hold, hnew⟩ := hbound began rfl
          exact h.bounded hold hnew id hcarried hdispose henter
  | false =>
      rw [if_neg Bool.false_ne_true]
      cases which with
      | first => exact h.quiet rfl nofun nofun
      | safe began =>
          exact h.bounded (hbound began rfl).1 rfl (fun ha => ha.skip (hfree rfl)) rfl nofun nofun

theorem Grace.scanEpoch (h : Grace s) {which : Scan} {m r : Nat} {rest : List Nat}
    (pc : (s.thread t).pc = .scanEpoch which m r rest) :
    Grace (s.goto t
      (.scan which (if (s.record r).epoch < m then (s.record r).epoch else m) rest)) := by
  cases which with
  | first => exact h.quiet rfl nofun nofun
  | safe began =>
      have hbound : (s.thread t).pc.bound = some (began, m, r :: rest) := by rw [pc]; rfl
      exact h.bounded hbound rfl Above.take rfl nofun nofun

theorem Grace.advance (h : Grace s) (hroom : s.globalEpoch + 1 < epochs) :
    Grace ({ s with globalEpoch := (s.globalEpoch + 1) % epochs }.goto t .rescan) := by
  have hle : s.globalEpoch ≤ (s.globalEpoch + 1) % epochs := by
    rw [Nat.mod_eq_of_lt hroom]
    exact Nat.le_succ _
  refine h.move rfl (.of_goto rfl rfl rfl rfl rfl rfl hle) rfl (fun p t' hp => ?_)
    (Nat.mod_lt _ (by decide)) (fun r => Nat.le_trans (h.epoch r) hle)
    (bounding_of_none rfl nofun nofun) h.deleted
  have hin := (h.guard p t' hp).inside
  show (Function.update s.thread t { s.thread t with pc := .rescan } t').inside = true
  by_cases ht : t' = t
  · rw [ht, Function.update_self]
    exact ht ▸ hin
  · rw [Function.update_of_ne ht]
    exact hin

theorem Grace.rescan (h : Grace s) (hrecords : Records s) :
    Grace (s.goto t (.scan (.safe s.clock) maxEpoch s.head)) := by
  refine h.goto rfl rfl rfl rfl rfl rfl rfl ⟨fun b m todo hbound => ?_, fun b m todo hbound => ?_,
    fun b m todo hbound x _ n hn => ?_, nofun, nofun⟩ h.deleted
  · cases hbound
    exact Nat.le_refl _
  · cases hbound
    exact above_head hrecords _ _
  · cases hbound
    exact h.time x.p n hn

/-! ### Sweeping -/

theorem Grace.sweepDelete (h : Grace s) (hrecords : Records s) (hbooks : Books s)
    {safe began : Nat} {kept rest : List Retired} {x : Retired}
    (pc : (s.thread t).pc = .sweep safe began kept) (next : (s.thread t).retired = x :: rest)
    (old : x.epoch < safe) :
    Grace ({ s with deleted := x.p :: s.deleted }.setThread t
      { s.thread t with retired := rest }) := by
  have hbound : (s.thread t).pc.bound = some (began, safe, []) := by rw [pc]; rfl
  have hheld : (s.thread t).held = kept ++ x :: rest := by
    unfold Thread.held
    rw [pc, next]
    rfl
  have hx : x ∈ (s.thread t).held := hheld ▸ List.mem_append_right _ List.mem_cons_self
  obtain ⟨n, hn⟩ := hbooks.known (.thread t) x.p (List.mem_map_of_mem hx)
  have hlt := (h.bounding t).own began safe [] hbound x hx n hn
  have hfree := h.unguarded hrecords ((h.bounding t).above _ _ _ hbound)
    (hbooks.stamped t x hx) hn hlt old
  refine h.goto rfl rfl rfl rfl rfl rfl rfl ?_ fun p hp t' => ?_
  · refine (h.bounding t).goto hbound hbound id (fun y hy => ?_) (by rw [pc]; nofun)
      (by rw [pc]; nofun)
    rw [pc] at hy
    rw [hheld]
    rcases List.mem_append.mp hy with hy | hy
    · exact List.mem_append_left _ hy
    · exact List.mem_append_right _ (List.mem_cons_of_mem _ hy)
  · rcases List.mem_cons.mp hp with rfl | hp
    · exact hfree t'
    · exact h.deleted p hp t'

theorem Grace.sweeps (h : Grace s) {safe began : Nat} {kept retired : List Retired} {pc' : Pc}
    (pc : (s.thread t).pc = .sweep safe began kept)
    (hnew : pc'.bound = some (began, safe, []))
    (hheld : ∀ y ∈ pc'.carried ++ retired, y ∈ kept ++ (s.thread t).retired)
    (hdispose : ∀ l, pc' ≠ .dispose l) (henter : ∀ e, pc' ≠ .enterEpoch e) :
    Grace (s.setThread t { s.thread t with pc := pc', retired := retired }) := by
  have hbound : (s.thread t).pc.bound = some (began, safe, []) := by rw [pc]; rfl
  refine h.goto rfl rfl rfl rfl rfl rfl rfl ?_ h.deleted
  refine (h.bounding t).goto hbound hnew id (fun y hy => ?_) hdispose henter
  unfold Thread.held
  rw [pc]
  exact hheld y hy

theorem Grace.adopt (h : Grace s) (hrecords : Records s) (hbooks : Books s) {safe began : Nat}
    (hearly : ∀ x ∈ s.orphans, x.epoch < safe → ∀ n, s.retiredAt x.p = some n → n < began)
    (pc : (s.thread t).pc = .adopt safe began) :
    Grace ({ s with
      orphans := s.orphans.filter fun r : Retired => decide (safe ≤ r.epoch),
      orphanCount := (s.orphans.filter fun r : Retired => decide (safe ≤ r.epoch)).length }.goto t
      (.dispose (s.orphans.filter fun r : Retired => decide (r.epoch < safe)))) := by
  have hbound : (s.thread t).pc.bound = some (began, safe, []) := by rw [pc]; rfl
  refine h.goto rfl rfl rfl rfl rfl rfl rfl
    ⟨nofun, nofun, nofun, fun l hl x hx t' => ?_, nofun⟩ h.deleted
  cases hl
  obtain ⟨hin, hold⟩ := List.mem_filter.mp hx
  obtain ⟨n, hn⟩ := hbooks.known .orphans x.p (List.mem_map_of_mem hin)
  have hlt := hearly x hin (of_decide_eq_true hold) n hn
  exact h.unguarded hrecords ((h.bounding t).above _ _ _ hbound) (hbooks.orphans x hin) hn hlt
    (of_decide_eq_true hold) t'

theorem Grace.dispose (h : Grace s) {x : Retired} {rest : List Retired}
    (pc : (s.thread t).pc = .dispose (x :: rest)) :
    Grace ({ s with deleted := x.p :: s.deleted }.goto t (.dispose rest)) := by
  have hfree := (h.bounding t).disposed _ pc
  refine h.goto rfl rfl rfl rfl rfl rfl rfl
    ⟨nofun, nofun, nofun, fun l hl y hy t' => ?_, nofun⟩ fun p hp t' => ?_
  · cases hl
    exact hfree y (List.mem_cons_of_mem _ hy) t'
  · rcases List.mem_cons.mp hp with rfl | hp
    · exact hfree x List.mem_cons_self t'
    · exact h.deleted p hp t'

/-! ### Every step -/

theorem step_grace (h : Grace s) (hrecords : Records s) (hbooks : Books s) (hok : Timely s e)
    (hstep : Step s t e s') : Grace s' := by
  have hattaching := hrecords.outside_of_attaching (t := t)
  have houtside := (hrecords.placed t).outside
  cases hstep with
  | attach pc | attachTry r rest pc | attachRetry r l pc | tick pc | disposeEnd pc
  | scanFirst m pc => exact h.quiet rfl nofun nofun
  | attachTake r rest pc free =>
      exact h.write rfl (hattaching (by rw [pc]; rfl)) rfl rfl rfl rfl rfl rfl rfl rfl
        (bounding_of_none rfl nofun nofun)
  | attachClear r pc =>
      exact h.write rfl (hattaching (by rw [pc]; rfl)) rfl rfl rfl rfl rfl rfl rfl rfl
        (bounding_of_none rfl nofun nofun)
  | attachNew pc => exact h.attachNew hrecords pc
  | attachPush r pc =>
      exact h.outside rfl (hattaching (by rw [pc]; rfl)) rfl (fun _ _ _ _ => rfl) h.epoch rfl rfl
        rfl rfl rfl (bounding_of_none rfl nofun nofun)
  | detach r pc tls => exact h.deactivate (bounding_of_none rfl nofun nofun)
  | detachOrphans pc =>
      split
      · exact h.quiet rfl nofun nofun
      · exact h.goto rfl rfl rfl rfl rfl rfl rfl (bounding_of_none rfl nofun nofun) h.deleted
  | detachRelease r pc tls =>
      exact h.write rfl (houtside (by rw [pc]; rfl)) rfl rfl rfl rfl rfl rfl rfl rfl
        (bounding_of_none rfl nofun nofun)
  | enter r pc tls outside =>
      refine h.goto rfl rfl rfl rfl rfl rfl rfl ⟨nofun, nofun, nofun, nofun, fun e he => ?_⟩ h.deleted
      cases he
      exact Nat.le_refl _
  | enterEpoch r e pc tls => exact h.enterEpoch hrecords pc tls
  | enterActive r pc tls =>
      exact h.write rfl (houtside (by rw [pc]; rfl)) rfl rfl rfl rfl rfl rfl rfl rfl
        (bounding_of_none rfl nofun nofun)
  | leave r pc tls =>
      exact h.deactivate (bounding_of_none (by rw [pc]; rfl) (by rw [pc]; nofun) (by rw [pc]; nofun))
  | retire p pc fresh => exact h.retire hbooks fresh pc
  | scanInUse m r which rest pc =>
      refine h.look (r := r) (fun began hwhich => ?_) (fun hwhich => ?_) rfl nofun nofun
        fun hunused p t' _ => hrecords.free_of_unused hunused t'
      · rw [pc, hwhich]
        exact ⟨rfl, rfl⟩
      · rw [hwhich]
        rfl
  | scanActive m r which rest pc =>
      refine h.look (r := r) (fun began hwhich => ?_) (fun hwhich => ?_) rfl nofun nofun
        fun hinactive p t' hp => h.free_of_inactive hrecords hinactive hp
      · rw [pc, hwhich]
        exact ⟨rfl, rfl⟩
      · rw [hwhich]
        rfl
  | scanEpoch m r which rest pc => exact h.scanEpoch pc
  | compare e pc => exact h.quiet (by split <;> rfl) (by split <;> nofun) (by split <;> nofun)
  | advance pc => exact h.advance hok
  | rescan pc => exact h.rescan hrecords
  | scanSafe m began pc =>
      have hbound : (s.thread t).pc.bound = some (began, m, []) := by rw [pc]; rfl
      exact h.bounded hbound rfl h.minActive rfl nofun nofun
  | sweepDelete safe began kept rest x pc next old => exact h.sweepDelete hrecords hbooks pc next old
  | sweepKeep safe began kept rest x pc next young =>
      refine h.sweeps pc rfl (fun y hy => ?_) nofun nofun
      rw [next]
      exact (List.append_assoc kept [x] rest) ▸ hy
  | sweepEnd safe began kept pc none =>
      exact h.sweeps pc rfl (fun y hy => List.mem_append_left _ hy) nofun nofun
  | countOrphans safe began pc =>
      have hbound : (s.thread t).pc.bound = some (began, safe, []) := by rw [pc]; rfl
      split
      · exact h.bounded hbound rfl id rfl nofun nofun
      · exact h.quiet rfl nofun nofun
  | adopt safe began pc => exact h.adopt hrecords hbooks hok pc
  | dispose x rest pc => exact h.dispose pc

theorem grace_of_runs (h : Runs Timely s) : Grace s :=
  h.holds (fun hs => hs ▸ grace_new) fun hs ih hstep meets =>
    step_grace ih (records_of_runs hs) (books_of_runs hs) meets hstep

/-- In a run with no late adoption, an object is not deleted before everybody has left the
section that they were in when it was retired, and it is deleted once. -/
theorem graceful_of_timelyRuns (s : State) (hruns : Runs Timely s) : Graceful s :=
  ⟨(grace_of_runs hruns).deleted, (books_of_runs hruns).custody.nodup .deleted⟩

/-- Worker 0 is in a section when worker 1 retires an object and detaches.  The first tick of
worker 1 leaves the orphan alone; the second, when worker 0 is in its next section, deletes it. -/
theorem adopted_graceful : ∃ s, s.deleted = [7] ∧ (s.thread 0).inside = true ∧ Graceful s := by
  -- the orphan was retired before any bound was computed
  have htimely : ∀ safe, ∀ r ∈ [Retired.mk 7 1], r.epoch < safe →
      ∀ n, Function.update (fun _ => none) 7 (some 0) r.p = some n → n < 1 := by
    intro safe r hr _ n hn
    rw [List.mem_singleton.mp hr, Function.update_self] at hn
    cases hn
    decide
  have h₀ : Runs Timely .new := .start rfl
  have h₁ := ((h₀.step (.attach 0 rfl rfl)).step (.attachNew 0 rfl)).step (.attachPush 0 0 rfl)
  have h₂ := (((h₁.step (.attach 1 rfl rfl)).step (.attachTry 1 _ _ rfl rfl)).step
    (.attachNew 1 rfl)).step (.attachPush 1 1 rfl)
  have h₃ := ((h₂.step (.enter 0 _ rfl rfl rfl)).step (.enterEpoch 0 _ _ rfl rfl)).step
    (.enterActive 0 _ rfl rfl)
  have h₄ := (((h₃.step (.retire 1 7 rfl rfl)).step (.detach 1 _ rfl rfl)).step
    (.detachOrphans 1 rfl)).step (.detachRelease 1 _ rfl rfl)
  -- worker 1 attaches again, with the same record, and ticks
  have h₅ := ((h₄.step (.attach 1 rfl rfl)).step (.attachTake 1 _ _ rfl rfl)).step
    (.attachClear 1 _ rfl)
  have h₆ := ((h₅.step (.tick 1 rfl)).step (.scanInUse 1 _ _ _ _ rfl)).step
    (.scanActive 1 _ _ _ _ rfl)
  have h₇ := (((h₆.step (.scanInUse 1 _ _ _ _ rfl)).step (.scanActive 1 _ _ _ _ rfl)).step
    (.scanEpoch 1 _ _ _ _ rfl)).step (.scanFirst 1 _ rfl)
  have h₈ := ((h₇.step (.compare 1 _ rfl)).step (.advance 1 rfl)
    (show 2 < epochs by decide)).step (.rescan 1 rfl)
  have h₉ := ((h₈.step (.scanInUse 1 _ _ _ _ rfl)).step (.scanActive 1 _ _ _ _ rfl)).step
    (.scanInUse 1 _ _ _ _ rfl)
  have h₁₀ := ((h₉.step (.scanActive 1 _ _ _ _ rfl)).step (.scanEpoch 1 _ _ _ _ rfl)).step
    (.scanSafe 1 _ _ rfl)
  have h₁₁ := (h₁₀.step (.sweepEnd 1 _ _ _ rfl rfl)).step (.countOrphans 1 _ _ rfl)
  have h₁₂ := (h₁₁.step (.adopt 1 _ _ rfl) (htimely _)).step (.disposeEnd 1 rfl)
  -- worker 0 leaves its section and enters one at the new epoch
  have h₁₃ := ((h₁₂.step (.leave 0 _ rfl rfl)).step (.enter 0 _ rfl rfl rfl)).step
    (.enterEpoch 0 _ _ rfl rfl)
  have h₁₄ := ((h₁₃.step (.enterActive 0 _ rfl rfl)).step (.tick 1 rfl)).step
    (.scanInUse 1 _ _ _ _ rfl)
  have h₁₅ := ((h₁₄.step (.scanActive 1 _ _ _ _ rfl)).step (.scanInUse 1 _ _ _ _ rfl)).step
    (.scanActive 1 _ _ _ _ rfl)
  have h₁₆ := ((h₁₅.step (.scanEpoch 1 _ _ _ _ rfl)).step (.scanFirst 1 _ rfl)).step
    (.compare 1 _ rfl)
  have h₁₇ := ((h₁₆.step (.advance 1 rfl) (show 3 < epochs by decide)).step (.rescan 1 rfl)).step
    (.scanInUse 1 _ _ _ _ rfl)
  have h₁₈ := ((h₁₇.step (.scanActive 1 _ _ _ _ rfl)).step (.scanInUse 1 _ _ _ _ rfl)).step
    (.scanActive 1 _ _ _ _ rfl)
  have h₁₉ := ((h₁₈.step (.scanEpoch 1 _ _ _ _ rfl)).step (.scanSafe 1 _ _ rfl)).step
    (.sweepEnd 1 _ _ _ rfl rfl)
  have h₂₀ := ((h₁₉.step (.countOrphans 1 _ _ rfl)).step (.adopt 1 _ _ rfl) (htimely _)).step
    (.dispose 1 _ _ rfl)
  exact ⟨_, rfl, rfl, graceful_of_timelyRuns _ h₂₀⟩

/-- A worker computes its bound while another one enters a section, and a third one retires an
object, advances the epoch and detaches: the orphan is below the bound. -/
theorem orphan_not_graceful : ∃ s, Runs (fun _ _ => True) s ∧ s.guarded 7 0 = true ∧
    ¬ Graceful s := by
  -- three workers attach
  have h₀ : Runs (fun _ _ => True) .new := .start rfl
  have h₁ := ((h₀.step (.attach 0 rfl rfl)).step (.attachNew 0 rfl)).step (.attachPush 0 0 rfl)
  have h₂ := (((h₁.step (.attach 1 rfl rfl)).step (.attachTry 1 _ _ rfl rfl)).step
    (.attachNew 1 rfl)).step (.attachPush 1 1 rfl)
  have h₃ := ((((h₂.step (.attach 2 rfl rfl)).step (.attachTry 2 _ _ rfl rfl)).step
    (.attachTry 2 _ _ rfl rfl)).step (.attachNew 2 rfl)).step (.attachPush 2 2 rfl)
  -- worker 1 ticks, up to the end of its second walk
  have h₄ := (((h₃.step (.tick 1 rfl)).step (.scanInUse 1 _ _ _ _ rfl)).step
    (.scanActive 1 _ _ _ _ rfl)).step (.scanInUse 1 _ _ _ _ rfl)
  have h₅ := ((h₄.step (.scanActive 1 _ _ _ _ rfl)).step (.scanInUse 1 _ _ _ _ rfl)).step
    (.scanActive 1 _ _ _ _ rfl)
  have h₆ := (((h₅.step (.scanFirst 1 _ rfl)).step (.compare 1 _ rfl)).step (.advance 1 rfl)).step
    (.rescan 1 rfl)
  have h₇ := ((h₆.step (.scanInUse 1 _ _ _ _ rfl)).step (.scanActive 1 _ _ _ _ rfl)).step
    (.scanInUse 1 _ _ _ _ rfl)
  have h₈ := ((h₇.step (.scanActive 1 _ _ _ _ rfl)).step (.scanInUse 1 _ _ _ _ rfl)).step
    (.scanActive 1 _ _ _ _ rfl)
  -- worker 0 enters a section, and worker 2 retires an object and ticks
  have h₉ := ((h₈.step (.enter 0 _ rfl rfl rfl)).step (.enterEpoch 0 _ _ rfl rfl)).step
    (.enterActive 0 _ rfl rfl)
  have h₁₀ := ((h₉.step (.retire 2 7 rfl rfl)).step (.tick 2 rfl)).step (.scanInUse 2 _ _ _ _ rfl)
  have h₁₁ := ((h₁₀.step (.scanActive 2 _ _ _ _ rfl)).step (.scanInUse 2 _ _ _ _ rfl)).step
    (.scanActive 2 _ _ _ _ rfl)
  have h₁₂ := ((h₁₁.step (.scanInUse 2 _ _ _ _ rfl)).step (.scanActive 2 _ _ _ _ rfl)).step
    (.scanEpoch 2 _ _ _ _ rfl)
  have h₁₃ := (((h₁₂.step (.scanFirst 2 _ rfl)).step (.compare 2 _ rfl)).step (.advance 2 rfl)).step
    (.rescan 2 rfl)
  have h₁₄ := ((h₁₃.step (.scanInUse 2 _ _ _ _ rfl)).step (.scanActive 2 _ _ _ _ rfl)).step
    (.scanInUse 2 _ _ _ _ rfl)
  have h₁₅ := (((h₁₄.step (.scanActive 2 _ _ _ _ rfl)).step (.scanInUse 2 _ _ _ _ rfl)).step
    (.scanActive 2 _ _ _ _ rfl)).step (.scanEpoch 2 _ _ _ _ rfl)
  have h₁₆ := (((h₁₅.step (.scanSafe 2 _ _ rfl)).step
    (.sweepKeep 2 _ _ _ _ _ rfl rfl (by decide))).step (.sweepEnd 2 _ _ _ rfl rfl)).step
    (.countOrphans 2 _ _ rfl)
  -- worker 2 detaches, and worker 1 adopts the orphan
  have h₁₇ := ((h₁₆.step (.detach 2 _ rfl rfl)).step (.detachOrphans 2 rfl)).step
    (.detachRelease 2 _ rfl rfl)
  have h₁₈ := ((h₁₇.step (.scanSafe 1 _ _ rfl)).step (.sweepEnd 1 _ _ _ rfl rfl)).step
    (.countOrphans 1 _ _ rfl)
  have h₁₉ := (h₁₈.step (.adopt 1 _ _ rfl)).step (.dispose 1 _ _ rfl)
  refine ⟨_, h₁₉, rfl, fun hgraceful => ?_⟩
  have hleft := hgraceful.left 7 (List.mem_singleton_self 7) 0
  exact Bool.noConfusion hleft

end Uvent.Reclaim.Qsbr
