import Uvent.Timers.Runs

/-!
# What a firing hands over

A firing carries the callback or coroutine its id was added with: no operation
of the wheel changes it, and an object is not armed again while an `ADD` of it
may still be admitted.
-/

namespace Uvent.Timers

open TimerWheel

/-- Every timer in the map or waiting to be admitted, and every firing, carries
what its id was added with. -/
structure Signed (w : TimerWheel) : Prop where
  mapped : ∀ id p, w.timerMap id = some p → Event.added id p (w.mem p).payload ∈ w.log
  queued : ∀ p id, Op.add p id ∈ w.timerOperationsQueue → id ∉ w.cancelledPending →
    id ∉ w.detachedPending → Event.added id p (w.mem p).payload ∈ w.log
  fired : ∀ id t pl, Event.fired id t pl ∈ w.log → ∃ p, Event.added id p pl ∈ w.log

section Signed

variable {policy : Policy} {w w' : TimerWheel} {p : Ptr}

theorem Signed.of_same (h : Signed w) (hm : ∀ q, (w'.mem q).payload = (w.mem q).payload)
    (hmap : ∀ id q, w'.timerMap id = some q → w.timerMap id = some q)
    (hqueue : ∀ q id, Op.add q id ∈ w'.timerOperationsQueue → id ∉ w'.cancelledPending →
      id ∉ w'.detachedPending → Op.add q id ∈ w.timerOperationsQueue ∧
        id ∉ w.cancelledPending ∧ id ∉ w.detachedPending)
    {l : List Event} (hlog : w'.log = l ++ w.log)
    (hfired : ∀ id t pl, Event.fired id t pl ∈ l → ∃ q, Event.added id q pl ∈ w.log) :
    Signed w' := by
  have hsub : ∀ {e}, e ∈ w.log → e ∈ w'.log := by
    intro e he
    rw [hlog]
    exact List.mem_append_right _ he
  refine ⟨?_, ?_, ?_⟩
  · intro id q hq
    rw [hm]
    exact hsub (h.mapped id q (hmap id q hq))
  · intro q id hq hc hd
    obtain ⟨hq', hc', hd'⟩ := hqueue q id hq hc hd
    rw [hm]
    exact hsub (h.queued q id hq' hc' hd')
  · intro id t pl hmem
    rw [hlog, List.mem_append] at hmem
    obtain ⟨q, hq⟩ : ∃ q, Event.added id q pl ∈ w.log := by
      rcases hmem with hnew | hold
      · exact hfired id t pl hnew
      · exact h.fired id t pl hold
    exact ⟨q, hsub hq⟩

theorem Signed.of_marks (h : Signed w) (hm : w'.mem = w.mem) {q : List Op} {c d : Finset Nat}
    {m time : Nat} {r : Finset Ptr} {l : List Event}
    (books : w'.books = { w.books with
      timerOperationsQueue := q, cancelledPending := c, detachedPending := d, maxAddedId := m,
      released := r, log := l ++ w.log, currentTime := time })
    (hqueue : ∀ p id, Op.add p id ∈ q → id ∉ c → id ∉ d →
      Op.add p id ∈ w.timerOperationsQueue ∧ id ∉ w.cancelledPending ∧ id ∉ w.detachedPending)
    (hquiet : ∀ id t pl, Event.fired id t pl ∉ l) : Signed w' := by
  have hmap : w'.timerMap = w.timerMap := congrArg Books.timerMap books
  have hq : w'.timerOperationsQueue = q := congrArg Books.timerOperationsQueue books
  have hc : w'.cancelledPending = c := congrArg Books.cancelledPending books
  have hd : w'.detachedPending = d := congrArg Books.detachedPending books
  refine h.of_same (fun x => by rw [hm]) ?_ ?_ (congrArg Books.log books)
    fun id t pl hmem => absurd hmem (hquiet id t pl)
  · intro id x hx
    rw [hmap] at hx
    exact hx
  · intro x id hx hxc hxd
    rw [hq] at hx
    rw [hc] at hxc
    rw [hd] at hxd
    exact hqueue x id hx hxc hxd

theorem Moved.payload_eq {target : Option (Nat × Nat)} {f : Timer → Timer}
    (moved : Moved w w' p target f) (hf : ∀ t, (f t).payload = t.payload) (q : Ptr) :
    (w'.mem q).payload = (w.mem q).payload := by
  by_cases hq : q = p
  · subst hq
    exact (Timer.payload_of_unplaced moved.self).trans (hf _)
  · exact Timer.payload_of_unplaced (moved.others q hq)

theorem Signed.of_moved (h : Signed w) {target : Option (Nat × Nat)} {f : Timer → Timer}
    (moved : Moved w w' p target f) (hf : ∀ t, (f t).payload = t.payload)
    {map : Nat → Option Ptr} {k : Nat} {l : List Event}
    (books : w'.books =
      { w.books with timerMap := map, activeTimerCount := k, log := l ++ w.log })
    (hmap : ∀ id q, map id = some q → w.timerMap id = some q)
    (hfired : ∀ id t pl, Event.fired id t pl ∈ l → ∃ q, Event.added id q pl ∈ w.log) :
    Signed w' := by
  have hmap' : w'.timerMap = map := congrArg Books.timerMap books
  have hq : w'.timerOperationsQueue = w.timerOperationsQueue :=
    congrArg Books.timerOperationsQueue books
  have hc : w'.cancelledPending = w.cancelledPending := congrArg Books.cancelledPending books
  have hd : w'.detachedPending = w.detachedPending := congrArg Books.detachedPending books
  refine h.of_same (moved.payload_eq hf) ?_ ?_ (congrArg Books.log books) hfired
  · intro id q hid
    rw [hmap'] at hid
    exact hmap id q hid
  · intro q id hmem hidc hidd
    rw [hq] at hmem
    rw [hc] at hidc
    rw [hd] at hidd
    exact ⟨hmem, hidc, hidd⟩

/-- A drop of the head of the queue leaves the rest as it is. -/
theorem Inv.live_of_rest (h : Inv w) {id : Nat} {rest : List Op} {c d : Finset Nat}
    (head : w.timerOperationsQueue = .add p id :: rest)
    (hc : ∀ x, x ≠ id → x ∈ w.cancelledPending → x ∈ c)
    (hd : ∀ x, x ≠ id → x ∈ w.detachedPending → x ∈ d) :
    ∀ q x, Op.add q x ∈ rest → x ∉ c → x ∉ d →
      Op.add q x ∈ w.timerOperationsQueue ∧ x ∉ w.cancelledPending ∧ x ∉ w.detachedPending := by
  intro q x hq hxc hxd
  have hx := mem_addIds hq
  rw [(h.head_id head).2.2, List.mem_range'_1] at hx
  refine ⟨by rw [head]; exact List.mem_cons_of_mem _ hq, ?_, ?_⟩
  · exact fun hin => hxc (hc x (by omega) hin)
  · exact fun hin => hxd (hd x (by omega) hin)

theorem not_fired_of_plain {plain : List Event} (h : ∀ e ∈ plain, e.Plain) (id t : Nat)
    (pl : Payload) : Event.fired id t pl ∉ plain :=
  fun hmem => h _ hmem

theorem mapped_of_erased {map : Nat → Option Ptr} {id x : Nat} {q : Ptr}
    (hq : Function.update map id none x = some q) : map x = some q := by
  by_cases hx : x = id
  · rw [hx, Function.update_self] at hq
    contradiction
  · rwa [Function.update_of_ne hx] at hq

theorem Signed.fired_cons (hs : Signed w) {e : Event} (hlog : w'.log = e :: w.log)
    (hquiet : ∀ id t pl, e ≠ .fired id t pl) {id t : Nat} {pl : Payload}
    (hfired : Event.fired id t pl ∈ w'.log) : ∃ q, Event.added id q pl ∈ w'.log := by
  rw [hlog] at hfired ⊢
  have hold := (List.mem_cons.mp hfired).resolve_left fun heq => hquiet id t pl heq.symm
  obtain ⟨q, hq⟩ := hs.fired id t pl hold
  exact ⟨q, List.mem_cons_of_mem _ hq⟩

theorem Signed.add (hs : Signed w) {t : Timer} {expiry : Nat} (ok : AddOk w p t)
    (hm : w'.mem = Function.update w.mem p
      { t with expiryTime := expiry, id := w.timerIdCounter + 1 })
    (books : w'.books =
      { w.books with
        timerIdCounter := w.timerIdCounter + 1,
        timerOperationsQueue := w.timerOperationsQueue ++ [.add p (w.timerIdCounter + 1)],
        addedAs := Function.update w.addedAs (w.timerIdCounter + 1) (some p),
        released := w.released.erase p,
        log := .added (w.timerIdCounter + 1) p t.payload :: w.log }) : Signed w' := by
  have hlog : w'.log = .added (w.timerIdCounter + 1) p t.payload :: w.log :=
    congrArg Books.log books
  have hqueue : w'.timerOperationsQueue =
      w.timerOperationsQueue ++ [.add p (w.timerIdCounter + 1)] :=
    congrArg Books.timerOperationsQueue books
  have hmap : w'.timerMap = w.timerMap := congrArg Books.timerMap books
  have hc : w'.cancelledPending = w.cancelledPending := congrArg Books.cancelledPending books
  have hd : w'.detachedPending = w.detachedPending := congrArg Books.detachedPending books
  refine ⟨fun id q hq => ?_, fun q id hq hidc hidd => ?_,
    fun id τ pl hfired => hs.fired_cons hlog (fun _ _ _ => nofun) hfired⟩
  · rw [hmap] at hq
    have hqp : q ≠ p := by
      rintro rfl
      exact ok.unmapped id hq
    rw [hm, Function.update_of_ne hqp, hlog]
    exact List.mem_cons_of_mem _ (hs.mapped id q hq)
  · rw [hqueue, List.mem_append, List.mem_singleton] at hq
    rw [hc] at hidc
    rw [hd] at hidd
    rw [hm, hlog]
    rcases hq with hq | hq
    · have hqp : q ≠ p := by
        rintro rfl
        rcases ok.queued id hq with hin | hin
        · exact hidd hin
        · exact hidc hin.1
      rw [Function.update_of_ne hqp]
      exact List.mem_cons_of_mem _ (hs.queued q id hq hidc hidd)
    · obtain ⟨rfl, rfl⟩ := Op.add.inj hq
      rw [Function.update_self]
      exact List.mem_cons_self

theorem Signed.accept (hs : Signed w) (h : Inv w) {id : Nat} {rest : List Op}
    {target : Option (Nat × Nat)} (head : w.timerOperationsQueue = .add p id :: rest)
    (attached : id ∉ w.detachedPending) (live : id ∉ w.cancelledPending)
    (moved : Moved w w' p target fun t => t)
    (books : w'.books =
      { w.books with
        timerOperationsQueue := rest, maxAddedId := max w.maxAddedId id,
        timerMap := Function.update w.timerMap (w.mem p).id (some p),
        activeTimerCount := w.activeTimerCount + 1,
        log := .drained (w.mem p).id (w.mem p).expiryTime w.currentTime :: w.log }) :
    Signed w' := by
  have hlog : w'.log = .drained (w.mem p).id (w.mem p).expiryTime w.currentTime :: w.log :=
    congrArg Books.log books
  have hmap : w'.timerMap = Function.update w.timerMap (w.mem p).id (some p) :=
    congrArg Books.timerMap books
  have hqueue : w'.timerOperationsQueue = rest := congrArg Books.timerOperationsQueue books
  have hc : w'.cancelledPending = w.cancelledPending := congrArg Books.cancelledPending books
  have hd : w'.detachedPending = w.detachedPending := congrArg Books.detachedPending books
  have hpay := moved.payload_eq (fun _ => rfl)
  have hmem : Op.add p id ∈ w.timerOperationsQueue := by rw [head]; exact List.mem_cons_self
  have hpid := (h.live p id hmem live attached).1
  refine ⟨fun x q hq => ?_, fun q x hq hxc hxd => ?_,
    fun x τ pl hfired => hs.fired_cons hlog (fun _ _ _ => nofun) hfired⟩
  · rw [hmap] at hq
    rw [hpay, hlog]
    by_cases hx : x = (w.mem p).id
    · rw [hx, Function.update_self] at hq
      obtain rfl := Option.some.inj hq
      rw [hx, hpid]
      exact List.mem_cons_of_mem _ (hs.queued p id hmem live attached)
    · rw [Function.update_of_ne hx] at hq
      exact List.mem_cons_of_mem _ (hs.mapped x q hq)
  · rw [hqueue] at hq
    rw [hc] at hxc
    rw [hd] at hxd
    rw [hpay, hlog]
    refine List.mem_cons_of_mem _ (hs.queued q x ?_ hxc hxd)
    rw [head]
    exact List.mem_cons_of_mem _ hq

theorem Signed.pendRemove (hs : Signed w) {id : Nat} {done : Option (Nat × Nat)} {rest : List Op}
    {plain : List Event} {released : Finset Ptr} (hplain : ∀ e ∈ plain, e.Plain)
    (head : w.timerOperationsQueue = .remove id done :: rest) (still : Still w w')
    (books : w'.books =
      { w.books with
        timerOperationsQueue := rest, cancelledPending := insert id w.cancelledPending,
        released := released, log := plain ++ .removed id :: w.log }) : Signed w' := by
  have hlog : plain ++ .removed id :: w.log = (plain ++ [.removed id]) ++ w.log := by
    rw [List.append_assoc, List.singleton_append]
  rw [hlog] at books
  refine hs.of_marks still.mem books (fun q x hq hc hd => ?_) fun x τ pl hmem => ?_
  · refine ⟨by rw [head]; exact List.mem_cons_of_mem _ hq, ?_, hd⟩
    exact fun hin => hc (Finset.mem_insert_of_mem hin)
  · rw [List.mem_append, List.mem_singleton] at hmem
    rcases hmem with hmem | heq
    · exact not_fired_of_plain hplain x τ pl hmem
    · cases heq

theorem Signed.effect (hs : Signed w) (h : Inv w) (heff : Effect policy w w') : Signed w' := by
  have hkeep : ∀ q id, Op.add q id ∈ w.timerOperationsQueue → id ∉ w.cancelledPending →
      id ∉ w.detachedPending → Op.add q id ∈ w.timerOperationsQueue ∧
        id ∉ w.cancelledPending ∧ id ∉ w.detachedPending :=
    fun q id hq hc hd => ⟨hq, hc, hd⟩
  cases heff with
  | quiet still books => exact hs.of_marks (l := []) still.mem books hkeep (by simp)
  | refresh hb hm books => exact hs.of_marks (l := []) hm books hkeep (by simp)
  | note e he still books =>
      refine hs.of_marks (l := [e]) still.mem books hkeep (not_fired_of_plain ?_)
      intro e' he'
      rw [List.mem_singleton] at he'
      rw [he']
      exact he
  | refused id _ _ still books =>
      exact hs.of_marks (l := [.refused id]) still.mem books hkeep (by simp)
  | update id newDur still books =>
      refine hs.of_marks (l := []) still.mem books ?_ (by simp)
      intro q x hq hc hd
      exact hkeep q x (by simpa using hq) hc hd
  | remove id done _ still books =>
      refine hs.of_marks (l := []) still.mem books ?_ (by simp)
      intro q x hq hc hd
      exact hkeep q x (by simpa using hq) hc hd
  | add p t expiry ok hb hm books => exact hs.add ok hm books
  | pendCancel id _ _ _ _ still books =>
      refine hs.of_marks (l := [.cancelled id]) still.mem books ?_ (by simp)
      exact fun q x hq hc hd => ⟨hq, fun hin => hc (Finset.mem_insert_of_mem hin), hd⟩
  | pendDetach id _ _ _ _ still books =>
      refine hs.of_marks (l := [.cancelled id]) still.mem books ?_ (by simp)
      exact fun q x hq hc hd => ⟨hq, hc, fun hin => hd (Finset.mem_insert_of_mem hin)⟩
  | pendRemove id done rest plain released hplain head _ _ still books =>
      exact hs.pendRemove hplain head still books
  | release id _ _ still books => exact hs.of_marks (l := []) still.mem books hkeep (by simp)
  | pop op rest head _ still books =>
      refine hs.of_marks (l := []) still.mem books ?_ (by simp)
      intro q x hq hc hd
      exact ⟨by rw [head]; exact List.mem_cons_of_mem _ hq, hc, hd⟩
  | dropDetached p id rest head _ still books =>
      refine hs.of_marks (l := []) still.mem books ?_ (by simp)
      exact h.live_of_rest head (fun _ _ hx => hx)
        (fun x hx hin => Finset.mem_erase.mpr ⟨hx, hin⟩)
  | dropCancelled p id rest head _ _ _ hm books =>
      refine hs.of_marks (l := []) hm books ?_ (by simp)
      exact h.live_of_rest head (fun x hx hin => Finset.mem_erase.mpr ⟨hx, hin⟩)
        (fun _ _ hx => hx)
  | accept p id rest head attached live moved books => exact hs.accept h head attached live moved books
  | rearm id p newDur expiry hp moved books =>
      exact hs.of_moved (l := [.drained id expiry w.currentTime]) moved (fun _ => rfl) books
        (fun _ _ hq => hq) (by simp)
  | unlink id p e kind hp moved books =>
      refine hs.of_moved (l := [e]) moved (fun _ => rfl) books (fun _ _ => mapped_of_erased) ?_
      rcases kind with rfl | rfl <;> simp
  | fire p _ hp _ moved books =>
      have hadded := hs.mapped _ p (h.known p hp).2
      refine hs.of_moved (l := [_]) moved (fun _ => rfl) books (fun _ _ => mapped_of_erased) ?_
      intro x τ pl hmem
      rw [List.mem_singleton] at hmem
      obtain ⟨rfl, -, rfl⟩ := Event.fired.inj hmem
      exact ⟨p, hadded⟩
  | relink p _ hp _ moved books =>
      exact hs.of_moved (l := []) moved (fun _ => rfl) books (fun _ _ hq => hq) (by simp)
  | pass _ still books => exact hs.of_marks (l := []) still.mem books hkeep (by simp)

theorem signed_new (clock : Clock) : Signed (TimerWheel.new clock) := by
  refine ⟨?_, ?_, ?_⟩
  · intro id p hp
    cases hp
  · intro p id hp
    cases hp
  · intro id t pl hmem
    cases hmem

end Signed

end Uvent.Timers
