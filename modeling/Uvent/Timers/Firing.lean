import Uvent.Timers.Runs
import Uvent.Lib.Lap

/-!
# When a timer fires

A timer drained with expiry `e` at wheel time `c` is due at `max e (c + 1)`.  Its
bucket is visited when the unit of its level that contains that time begins, and
until then that beginning is less than one lap away.  So a visit either finds the
timer due now, or moves it to a bucket that is visited later.
-/

namespace Uvent.Timers

open TimerWheel Relation Uvent.Lib

/-- The timer due at `due` sits in a bucket that is visited at the beginning of
its unit, which is neither before `n` nor a lap or more after it. -/
structure Placed (n level slot due : Nat) : Prop where
  slot_eq : slot = due / interval level % slots
  low : n ≤ Lap.floor (interval level) due
  high : Lap.floor (interval level) due < n + slots * interval level

/-! ## The chosen bucket -/

theorem interval_succ (level : Nat) : interval (level + 1) = interval level * slots :=
  Nat.pow_succ 256 level

theorem interval_pos (level : Nat) : 0 < interval level := Nat.pow_pos (by decide)

theorem findLevel_spec (diff : Nat) :
    ∀ left level, interval level ≤ diff ∨ level = 0 →
      (interval (findLevel diff left level) ≤ diff ∨ findLevel diff left level = 0) ∧
      (diff < interval (level + left) * slots →
        diff < interval (findLevel diff left level) * slots) := by
  intro left
  induction left with
  | zero => intro level h; exact ⟨h, fun hlt => hlt⟩
  | succ left ih =>
      intro level h
      rw [findLevel]
      split
      · next hge =>
          have hnext := ih (level + 1) (.inl (by rw [interval_succ]; exact hge))
          rw [show level + 1 + left = level + (left + 1) by omega] at hnext
          exact hnext
      · next hlt => exact ⟨h, fun _ => by omega⟩

/-- A timer less than `2^32` ahead goes to a bucket that is visited after the
current time and less than a lap away. -/
theorem placed_place {w : TimerWheel} {e n : Nat} (hspan : e < w.currentTime + 2 ^ 32)
    (hlow : w.currentTime ≤ n) (hhigh : n ≤ w.currentTime + 1) :
    Placed n (w.place e).1 (w.place e).2 (max e (w.currentTime + 1)) := by
  unfold place
  by_cases hexp : e > w.currentTime
  · simp only [if_pos hexp]
    have hdiff : e - w.currentTime ≠ 0 := by omega
    obtain ⟨hbig, hsmall⟩ := findLevel_spec (e - w.currentTime) (twLevels - 1) 0 (.inr rfl)
    have hlt := hsmall (by
      change e - w.currentTime < 256 ^ 3 * 256
      omega)
    rw [if_neg hdiff, max_eq_left (by omega)]
    set level := findLevel (e - w.currentTime) (twLevels - 1) 0
    have hpos := interval_pos level
    have hfloor := Lap.floor_le (interval level) e
    have hceil := Lap.lt_floor_add hpos e
    have hstart : w.currentTime + 1 ≤ Lap.floor (interval level) e := by
      rcases hbig with hge | h0
      · omega
      · rw [h0]
        change _ ≤ Lap.floor 1 e
        rw [Lap.floor_one]
        omega
    rw [Nat.mul_comm] at hlt
    exact ⟨rfl, by omega, by omega⟩
  · simp only [if_neg hexp]
    rw [if_pos trivial, max_eq_right (by omega)]
    have hlevel : findLevel 0 (twLevels - 1) 0 = 0 := by decide
    rw [hlevel]
    change Placed n 0 ((w.currentTime + 1) % slots) (w.currentTime + 1)
    refine ⟨?_, ?_, ?_⟩
    · change _ = (w.currentTime + 1) / 1 % slots
      rw [Nat.div_one]
    · change n ≤ Lap.floor 1 _
      rw [Lap.floor_one]
      exact hhigh
    · change Lap.floor 1 _ < n + 256 * 1
      rw [Lap.floor_one]
      omega

/-! ## The log of an id -/

/-- The last `drained` entry of an id and the firings since then, or `none` if it
was removed or cancelled since. -/
def account (id : Nat) : List Event → Option (Nat × Nat × List Nat)
  | [] => none
  | .drained x e c :: log => if x = id then some (e, c, []) else account id log
  | .fired x t _ :: log =>
      if x = id then (account id log).map fun a => (a.1, a.2.1, t :: a.2.2) else account id log
  | .removed x :: log => if x = id then none else account id log
  | .cancelled x :: log => if x = id then none else account id log
  | .added _ _ _ :: log => account id log
  | .refused _ :: log => account id log
  | .destroyed _ :: log => account id log
  | .deleted _ :: log => account id log
  | .called _ _ :: log => account id log

/-- Every timer was drained less than `2^32` before its expiry. -/
def InSpan (log : List Event) : Prop := ∀ id e c, Event.drained id e c ∈ log → e < c + 2 ^ 32

theorem mem_of_account {id : Nat} {log : List Event} :
    ∀ {e c : Nat} {ts : List Nat}, account id log = some (e, c, ts) →
      Event.drained id e c ∈ log := by
  induction log with
  | nil => intro e c ts h; cases h
  | cons event log ih =>
      intro e c ts h
      cases event with
      | drained x e' c' =>
          by_cases hx : x = id
          · rw [account, if_pos hx] at h
            obtain ⟨rfl, rfl, -⟩ : e' = e ∧ c' = c ∧ [] = ts := by simpa using h
            rw [hx]
            exact List.mem_cons_self
          · rw [account, if_neg hx] at h
            exact List.mem_cons_of_mem _ (ih h)
      | fired x t pl =>
          by_cases hx : x = id
          · rw [account, if_pos hx] at h
            obtain ⟨⟨e', c', ts'⟩, hacc, heq⟩ := Option.map_eq_some_iff.mp h
            obtain ⟨rfl, rfl, -⟩ : e' = e ∧ c' = c ∧ t :: ts' = ts := by simpa using heq
            exact List.mem_cons_of_mem _ (ih hacc)
          · rw [account, if_neg hx] at h
            exact List.mem_cons_of_mem _ (ih h)
      | removed x =>
          by_cases hx : x = id
          · rw [account, if_pos hx] at h; cases h
          · rw [account, if_neg hx] at h
            exact List.mem_cons_of_mem _ (ih h)
      | cancelled x =>
          by_cases hx : x = id
          · rw [account, if_pos hx] at h; cases h
          · rw [account, if_neg hx] at h
            exact List.mem_cons_of_mem _ (ih h)
      | added x p pl => exact List.mem_cons_of_mem _ (ih h)
      | refused x => exact List.mem_cons_of_mem _ (ih h)
      | destroyed x => exact List.mem_cons_of_mem _ (ih h)
      | deleted x => exact List.mem_cons_of_mem _ (ih h)
      | called fn arg => exact List.mem_cons_of_mem _ (ih h)

theorem account_plain {id : Nat} {e : Event} (he : e.Plain) (log : List Event) :
    account id (e :: log) = account id log := by
  cases e <;> first | rfl | exact False.elim he

theorem account_plain_append {id : Nat} {plain : List Event} (h : ∀ e ∈ plain, e.Plain)
    (log : List Event) : account id (plain ++ log) = account id log := by
  induction plain with
  | nil => rfl
  | cons e plain ih =>
      rw [List.cons_append, account_plain (h e List.mem_cons_self)]
      exact ih fun e' he' => h e' (List.mem_cons_of_mem _ he')

/-! ## The invariant -/

structure Timely (n : Nat) (w : TimerWheel) : Prop where
  placed : ∀ level slot p, p ∈ w.buckets level slot →
    Placed n level slot (max (w.mem p).expiryTime n)
  armed : ∀ id p, w.timerMap id = some p →
    ∃ c, account id w.log = some ((w.mem p).expiryTime, c, []) ∧ c < n ∧
      n ≤ max (w.mem p).expiryTime (c + 1)
  done : ∀ id e c ts, account id w.log = some (e, c, ts) → w.timerMap id = none →
    ts = [max e (c + 1)] ∧ max e (c + 1) ≤ w.currentTime

section Effects

variable {policy : Policy} {n : Nat} {w w' : TimerWheel} {p : Ptr}

/-- No timer in a bucket changes, and the account of an id changes only if it is
closed and the id is not in the map. -/
theorem Timely.of_same (ht : Timely n w) (h : Inv w) (hb : w'.buckets = w.buckets)
    (hm : ∀ q, w.Holds q → w'.mem q = w.mem q) (hmap : w'.timerMap = w.timerMap)
    (hcur : w.currentTime ≤ w'.currentTime)
    (hacc : ∀ id, account id w'.log = account id w.log ∨
      (account id w'.log = none ∧ w.timerMap id = none)) : Timely n w' := by
  refine ⟨?_, ?_, ?_⟩
  · intro level slot q hq
    rw [hb] at hq
    rw [hm q ⟨level, slot, hq⟩]
    exact ht.placed level slot q hq
  · intro id q hq
    rw [hmap] at hq
    rcases hacc id with hsame | ⟨-, hnone⟩
    · rw [hsame, hm q (h.held id q hq).2]
      exact ht.armed id q hq
    · rw [hnone] at hq
      contradiction
  · intro id e c ts hac hnone
    rw [hmap] at hnone
    rcases hacc id with hsame | ⟨hclosed, -⟩
    · rw [hsame] at hac
      obtain ⟨hts, hle⟩ := ht.done id e c ts hac hnone
      exact ⟨hts, hle.trans hcur⟩
    · rw [hclosed] at hac
      contradiction

theorem Timely.of_still (ht : Timely n w) (h : Inv w) (hb : w'.buckets = w.buckets)
    (hm : w'.mem = w.mem) {q : List Op} {c d : Finset Nat} {m : Nat} {r : Finset Ptr}
    {l : List Event}
    (books : w'.books = { w.books with
      timerOperationsQueue := q, cancelledPending := c, detachedPending := d, maxAddedId := m,
      released := r, log := l })
    (hacc : ∀ id, account id l = account id w.log ∨
      (account id l = none ∧ w.timerMap id = none)) : Timely n w' := by
  have hlog : w'.log = l := congrArg Books.log books
  have hcur : w'.currentTime = w.currentTime := congrArg Books.currentTime books
  refine ht.of_same h hb (fun q _ => by rw [hm]) (congrArg Books.timerMap books) hcur.ge ?_
  rw [hlog]
  exact hacc

theorem account_mark {id : Nat} {e : Event} (kind : e = .cancelled id ∨ e = .removed id)
    (log : List Event) (x : Nat) :
    account x (e :: log) = if id = x then none else account x log := by
  rcases kind with rfl | rfl <;> rfl

theorem Moved.expiryTime_of_ne {target : Option (Nat × Nat)} {f : Timer → Timer}
    (moved : Moved w w' p target f) {q : Ptr} (hq : q ≠ p) :
    (w'.mem q).expiryTime = (w.mem q).expiryTime :=
  Timer.expiryTime_of_unplaced (moved.others q hq)

theorem Timely.placed_of_moved (ht : Timely n w) {target : Option (Nat × Nat)}
    {f : Timer → Timer} (moved : Moved w w' p target f)
    (hself : ∀ level slot, target = some (level, slot) →
      Placed n level slot (max (w'.mem p).expiryTime n)) :
    ∀ level slot q, q ∈ w'.buckets level slot →
      Placed n level slot (max (w'.mem q).expiryTime n) := by
  intro level slot q hq
  rcases (moved.buckets level slot q).mp hq with ⟨hold, hne⟩ | ⟨rfl, htarget⟩
  · rw [moved.expiryTime_of_ne hne]
    exact ht.placed level slot q hold
  · exact hself level slot htarget

/-- A timer goes out and its id leaves the map; its account is closed or ends
with the firing at its due time. -/
theorem Timely.of_moved_out (ht : Timely n w) (h : Inv w) {id : Nat} {f : Timer → Timer}
    (moved : Moved w w' p none f) (hp : w.timerMap id = some p) {k : Nat} {l : List Event}
    (books : w'.books = { w.books with
      timerMap := Function.update w.timerMap id none, activeTimerCount := k, log := l })
    (hother : ∀ x, x ≠ id → account x l = account x w.log)
    (hself : ∀ e c ts, account id l = some (e, c, ts) →
      ts = [max e (c + 1)] ∧ max e (c + 1) ≤ w.currentTime) : Timely n w' := by
  have hmap : w'.timerMap = Function.update w.timerMap id none := congrArg Books.timerMap books
  have hlog : w'.log = l := congrArg Books.log books
  have hcur : w'.currentTime = w.currentTime := congrArg Books.currentTime books
  refine ⟨ht.placed_of_moved moved (by simp), ?_, ?_⟩
  · intro x q hq
    rw [hmap] at hq
    have hx : x ≠ id := by
      rintro rfl
      rw [Function.update_self] at hq
      contradiction
    rw [Function.update_of_ne hx] at hq
    have hqp : q ≠ p := by
      rintro rfl
      exact hx ((h.held x q hq).1.symm.trans (h.held id q hp).1)
    rw [hlog, hother x hx, moved.expiryTime_of_ne hqp]
    exact ht.armed x q hq
  · intro x e c ts hac hnone
    rw [hlog] at hac
    rw [hcur]
    by_cases hx : x = id
    · rw [hx] at hac
      exact hself e c ts hac
    · rw [hother x hx] at hac
      rw [hmap, Function.update_of_ne hx] at hnone
      exact ht.done x e c ts hac hnone

/-- A timer goes to the bucket chosen for its expiry now, and the log says so. -/
theorem Timely.of_moved_in (ht : Timely n w) {id e : Nat} {f : Timer → Timer}
    (hn : n = w.currentTime + 1) (moved : Moved w w' p (some (w.place e)) f)
    (hexpiry : (w'.mem p).expiryTime = e) (hspan : e < w.currentTime + 2 ^ 32)
    (hmap : w'.timerMap = Function.update w.timerMap id (some p))
    (huniq : ∀ x q, x ≠ id → w.timerMap x = some q → q ≠ p)
    (hlog : w'.log = .drained id e w.currentTime :: w.log)
    (hcur : w'.currentTime = w.currentTime) : Timely n w' := by
  have hplaced := placed_place hspan (by omega) hn.le
  have hacc : ∀ x, x ≠ id → account x w'.log = account x w.log := by
    intro x hx
    rw [hlog, account, if_neg hx.symm]
  refine ⟨?_, ?_, ?_⟩
  · refine ht.placed_of_moved moved ?_
    intro level slot htarget
    rw [Option.some.inj htarget] at hplaced
    rw [hexpiry, hn]
    rwa [hn] at hplaced
  · intro x q hq
    rw [hmap] at hq
    by_cases hx : x = id
    · subst hx
      rw [Function.update_self] at hq
      obtain rfl := Option.some.inj hq
      refine ⟨w.currentTime, ?_, by omega, by omega⟩
      rw [hlog, account, if_pos rfl, hexpiry]
    · rw [Function.update_of_ne hx] at hq
      rw [hacc x hx, moved.expiryTime_of_ne (huniq x q hx hq)]
      exact ht.armed x q hq
  · intro x e' c ts hac hnone
    rw [hmap] at hnone
    have hx : x ≠ id := by
      rintro rfl
      rw [Function.update_self] at hnone
      contradiction
    rw [Function.update_of_ne hx] at hnone
    rw [hacc x hx] at hac
    rw [hcur]
    exact ht.done x e' c ts hac hnone

/-- While no time passes the invariant holds for the time after the current one. -/
theorem Timely.effect (hidle : ¬policy.advancing) (ht : Timely (w.currentTime + 1) w)
    (h : Inv w) (hspan : InSpan w'.log) (heff : Effect policy w w') :
    Timely (w.currentTime + 1) w' := by
  have hmark : ∀ {id : Nat} {e : Event},
      (e = .cancelled id ∨ e = .removed id) → w.timerMap id = none → ∀ x,
        account x (e :: w.log) = account x w.log ∨
          (account x (e :: w.log) = none ∧ w.timerMap x = none) := by
    intro id e kind hnone x
    rw [account_mark kind]
    by_cases hx : id = x
    · rw [if_pos hx]
      exact .inr ⟨rfl, hx ▸ hnone⟩
    · rw [if_neg hx]
      exact .inl rfl
  cases heff with
  | quiet still books => exact ht.of_still h still.buckets still.mem books fun _ => .inl rfl
  | refresh hb hm books => exact ht.of_still h hb hm books fun _ => .inl rfl
  | note e he still books =>
      exact ht.of_still h still.buckets still.mem books fun _ => .inl (account_plain he _)
  | refused id _ _ still books =>
      exact ht.of_still h still.buckets still.mem books fun _ => .inl rfl
  | update id newDur still books =>
      exact ht.of_still h still.buckets still.mem books fun _ => .inl rfl
  | remove id done _ still books =>
      exact ht.of_still h still.buckets still.mem books fun _ => .inl rfl
  | add p t expiry ok hb hm books =>
      have hlog : w'.log = .added (w.timerIdCounter + 1) p t.payload :: w.log :=
        congrArg Books.log books
      have hcur : w'.currentTime = w.currentTime := congrArg Books.currentTime books
      refine ht.of_same h hb ?_ (congrArg Books.timerMap books) hcur.ge ?_
      · intro q hq
        have hqp : q ≠ p := by
          rintro rfl
          exact ok.unmapped _ (h.known q hq).2
        rw [hm, Function.update_of_ne hqp]
      · intro x
        rw [hlog]
        exact .inl rfl
  | pendCancel id _ _ hnone _ still books =>
      exact ht.of_still h still.buckets still.mem books (hmark (.inl rfl) hnone)
  | pendDetach id _ _ hnone _ still books =>
      exact ht.of_still h still.buckets still.mem books (hmark (.inl rfl) hnone)
  | pendRemove id done rest plain released hplain _ hnone _ still books =>
      refine ht.of_still h still.buckets still.mem books ?_
      intro x
      rw [account_plain_append hplain]
      exact hmark (.inr rfl) hnone x
  | release id _ _ still books =>
      exact ht.of_still h still.buckets still.mem books fun _ => .inl rfl
  | pop op rest _ _ still books =>
      exact ht.of_still h still.buckets still.mem books fun _ => .inl rfl
  | dropDetached p id rest _ _ still books =>
      exact ht.of_still h still.buckets still.mem books fun _ => .inl rfl
  | dropCancelled p id rest _ _ _ hb hm books =>
      exact ht.of_still h hb hm books fun _ => .inl rfl
  | accept p id rest head hdet hcan moved books =>
      have hlog : w'.log =
          .drained (w.mem p).id (w.mem p).expiryTime w.currentTime :: w.log :=
        congrArg Books.log books
      have hmem : Op.add p id ∈ w.timerOperationsQueue := by rw [head]; exact List.mem_cons_self
      obtain ⟨-, -, hnot⟩ := h.live p id hmem hcan hdet
      refine ht.of_moved_in rfl moved (Timer.expiryTime_of_unplaced moved.self) ?_
        (congrArg Books.timerMap books) ?_ hlog (congrArg Books.currentTime books)
      · exact hspan _ _ _ (by rw [hlog]; exact List.mem_cons_self)
      · rintro x q - hq rfl
        exact hnot (h.held x q hq).2
  | rearm id p newDur expiry hp moved books =>
      have hlog : w'.log = .drained id expiry w.currentTime :: w.log := congrArg Books.log books
      have hmap : w'.timerMap = Function.update w.timerMap id (some p) := by
        rw [← hp, Function.update_eq_self]
        exact congrArg Books.timerMap books
      refine ht.of_moved_in rfl moved (Timer.expiryTime_of_unplaced moved.self) ?_ hmap ?_ hlog
        (congrArg Books.currentTime books)
      · exact hspan _ _ _ (by rw [hlog]; exact List.mem_cons_self)
      · rintro x q hx hq rfl
        exact hx ((h.held x q hq).1.symm.trans (h.held id q hp).1)
  | unlink id p e kind hp moved books =>
      refine ht.of_moved_out h moved hp books ?_ ?_
      · intro x hx
        rw [account_mark kind, if_neg hx.symm]
      · intro e' c ts hac
        rw [account_mark kind, if_pos rfl] at hac
        contradiction
  | fire p adv => exact absurd adv hidle
  | relink p adv => exact absurd adv hidle
  | pass adv => exact absurd adv hidle

theorem Effect.currentTime_eq (hidle : ¬policy.advancing) (heff : Effect policy w w') :
    w'.currentTime = w.currentTime := by
  cases heff
  case fire adv _ _ _ _ _ _ => exact absurd adv hidle
  case relink adv _ _ _ _ _ _ => exact absurd adv hidle
  case pass adv _ _ => exact absurd adv hidle
  all_goals exact congrArg Books.currentTime ‹w'.books = _›

theorem InSpan.of_append {l log : List Event} (h : InSpan (l ++ log)) : InSpan log :=
  fun id e c hmem => h id e c (List.mem_append_right l hmem)

theorem Timely.effects (hidle : ¬policy.advancing) (ht : Timely (w.currentTime + 1) w)
    (h : Inv w) (heffs : Effects policy w w') (hspan : InSpan w'.log) :
    Timely (w'.currentTime + 1) w' ∧ w'.currentTime = w.currentTime := by
  induction heffs with
  | refl => exact ⟨ht, rfl⟩
  | tail hpre heff ih =>
      obtain ⟨l, hl⟩ := heff.log_eq
      obtain ⟨ht₁, hcur₁⟩ := ih (InSpan.of_append (hl ▸ hspan))
      have hcur := heff.currentTime_eq hidle
      refine ⟨?_, hcur.trans hcur₁⟩
      rw [hcur]
      exact ht₁.effect hidle (h.effects hpre) hspan heff

/-! ## A visit -/

/-- The expiry of a timer in the map is less than `2^32` after the next visit. -/
theorem Timely.expiry_lt (ht : Timely n w) (h : Inv w) (hspan : InSpan w.log)
    (hp : w.Holds p) : (w.mem p).expiryTime < n + 2 ^ 32 := by
  obtain ⟨c, hacc, hlt, -⟩ := ht.armed _ p (h.known p hp).2
  have := hspan _ _ _ (mem_of_account hacc)
  omega

/-- A timer that fires at `n` is due at `n`. -/
theorem Timely.of_fire (ht : Timely n w) (h : Inv w) (hn : w.currentTime = n) {f : Timer → Timer}
    (hp : w.Holds p) (hdue : (w.mem p).expiryTime ≤ w.currentTime)
    (moved : Moved w w' p none f) {k : Nat}
    (books : w'.books = { w.books with
      timerMap := Function.update w.timerMap (w.mem p).id none, activeTimerCount := k,
      log := .fired (w.mem p).id w.currentTime (w.mem p).payload :: w.log }) :
    Timely n w' := by
  have hmap := (h.known p hp).2
  refine ht.of_moved_out h moved hmap books ?_ ?_
  · intro x hx
    rw [account, if_neg hx.symm]
  · intro e c ts hac
    obtain ⟨c', hacc, hlt, hle⟩ := ht.armed _ p hmap
    rw [account, if_pos rfl, hacc] at hac
    obtain ⟨rfl, rfl, rfl⟩ : (w.mem p).expiryTime = e ∧ c' = c ∧ [w.currentTime] = ts := by
      simpa using hac
    have hdueEq : max (w.mem p).expiryTime (c' + 1) = w.currentTime := by omega
    rw [hdueEq]
    exact ⟨rfl, le_rfl⟩

theorem Timely.of_relink (ht : Timely n w) (h : Inv w) (hspan : InSpan w.log)
    (hn : w.currentTime = n) (hp : w.Holds p) (hearly : w.currentTime < (w.mem p).expiryTime)
    (moved : Moved w w' p (some (w.place (w.mem p).expiryTime)) fun t => t)
    (books : w'.books = w.books) : Timely n w' := by
  have hlog : w'.log = w.log := congrArg Books.log books
  have hmap : w'.timerMap = w.timerMap := congrArg Books.timerMap books
  have hcur : w'.currentTime = w.currentTime := congrArg Books.currentTime books
  have hexpiry : ∀ q, (w'.mem q).expiryTime = (w.mem q).expiryTime := by
    intro q
    by_cases hq : q = p
    · rw [hq]
      exact Timer.expiryTime_of_unplaced moved.self
    · exact moved.expiryTime_of_ne hq
  have hlt := ht.expiry_lt h hspan hp
  refine ⟨?_, ?_, ?_⟩
  · refine ht.placed_of_moved moved ?_
    intro level slot htarget
    have hplaced := placed_place (w := w) (e := (w.mem p).expiryTime) (n := n)
      (by omega) hn.le (by omega)
    rw [Option.some.inj htarget] at hplaced
    rw [hexpiry, max_eq_left (by omega)]
    rwa [max_eq_left (by omega)] at hplaced
  · intro id q hq
    rw [hmap] at hq
    rw [hlog, hexpiry]
    exact ht.armed id q hq
  · intro id e c ts hac hnone
    rw [hlog] at hac
    rw [hmap] at hnone
    rw [hcur]
    exact ht.done id e c ts hac hnone

end Effects

end Uvent.Timers
