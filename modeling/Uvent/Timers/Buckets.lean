import Uvent.Timers.TimerWheel

/-!
# Buckets and positions

A timer records its level, slot and position, and the bucket there holds it.
Linking, unlinking and relinking keep the two in step; what they leave alone is
stated once, as equality of `books` and of the unplaced timers.
-/

namespace Uvent.Timers

open Uvent.Lib

def Timer.unplaced (t : Timer) : Timer := { t with slotIndex := 0, level := 0, posInBucket := 0 }

section Unplaced

variable {t t' : Timer}

theorem Timer.id_of_unplaced (h : t.unplaced = t'.unplaced) : t.id = t'.id := by
  have hid := congrArg Timer.id h
  exact hid

theorem Timer.active_of_unplaced (h : t.unplaced = t'.unplaced) : t.active = t'.active := by
  have hactive := congrArg Timer.active h
  exact hactive

theorem Timer.expiryTime_of_unplaced (h : t.unplaced = t'.unplaced) :
    t.expiryTime = t'.expiryTime := by
  have hexpiry := congrArg Timer.expiryTime h
  exact hexpiry

theorem Timer.heap_of_unplaced (h : t.unplaced = t'.unplaced) : t.heap = t'.heap := by
  have hheap := congrArg Timer.heap h
  exact hheap

theorem Timer.payload_of_unplaced (h : t.unplaced = t'.unplaced) : t.payload = t'.payload := by
  have hpayload := congrArg Timer.payload h
  exact hpayload

end Unplaced

structure Books where
  currentTime : Nat
  timerMap : Nat → Option Ptr
  timerIdCounter : Nat
  activeTimerCount : Nat
  timerOperationsQueue : List Op
  cancelledPending : Finset Nat
  detachedPending : Finset Nat
  maxAddedId : Nat
  addedAs : Nat → Option Ptr
  released : Finset Ptr
  log : List Event

def Linked (b : Nat → Nat → List Ptr) (m : Ptr → Timer) : Prop :=
  ∀ level slot pos p, (b level slot)[pos]? = some p →
    (m p).level = level ∧ (m p).slotIndex = slot ∧ (m p).posInBucket = pos ∧
      level < twLevels ∧ slot < slots

namespace TimerWheel

def books (w : TimerWheel) : Books :=
  ⟨w.currentTime, w.timerMap, w.timerIdCounter, w.activeTimerCount, w.timerOperationsQueue,
    w.cancelledPending, w.detachedPending, w.maxAddedId, w.addedAs, w.released, w.log⟩

def Holds (w : TimerWheel) (p : Ptr) : Prop := ∃ level slot, p ∈ w.buckets level slot

/-- The level and slot `addTimerToWheel` chooses. -/
def place (w : TimerWheel) (expiryTime : Nat) : Nat × Nat :=
  let diff := if expiryTime > w.currentTime then expiryTime - w.currentTime else 0
  let level := findLevel diff (twLevels - 1) 0
  (level, if diff = 0 then (w.currentTime + 1) % slots else expiryTime / interval level % slots)

end TimerWheel

/-! ## Linked buckets -/

theorem setBucket_self (b : Nat → Nat → List Ptr) (level slot : Nat) (l : List Ptr) :
    setBucket b level slot l level slot = l := by
  simp [setBucket]

theorem setBucket_of_ne (b : Nat → Nat → List Ptr) {level slot level' slot' : Nat} (l : List Ptr)
    (h : (level', slot') ≠ (level, slot)) :
    setBucket b level slot l level' slot' = b level' slot' := by
  unfold setBucket
  rw [if_neg]
  rintro ⟨rfl, rfl⟩
  exact h rfl

theorem setBucket_comm (b : Nat → Nat → List Ptr) {level slot level' slot' : Nat}
    (l l' : List Ptr) (h : (level', slot') ≠ (level, slot)) :
    setBucket (setBucket b level slot l) level' slot' l' =
      setBucket (setBucket b level' slot' l') level slot l := by
  funext i j
  unfold setBucket
  by_cases h1 : i = level ∧ j = slot
  · obtain ⟨rfl, rfl⟩ := h1
    have h2 : ¬(i = level' ∧ j = slot') := by
      rintro ⟨rfl, rfl⟩
      exact h rfl
    simp [h2]
  · simp [h1]

section Linked

variable {b : Nat → Nat → List Ptr} {m : Ptr → Timer}

theorem Linked.of_mem (h : Linked b m) {level slot : Nat} {p : Ptr} (hp : p ∈ b level slot) :
    (m p).level = level ∧ (m p).slotIndex = slot ∧
      (b level slot)[(m p).posInBucket]? = some p ∧ level < twLevels ∧ slot < slots := by
  obtain ⟨pos, hpos⟩ := List.mem_iff_getElem?.mp hp
  obtain ⟨hlevel, hslot, hposEq, hlt⟩ := h level slot pos p hpos
  exact ⟨hlevel, hslot, by rw [hposEq]; exact hpos, hlt⟩

theorem Linked.nodup (h : Linked b m) (level slot : Nat) : (b level slot).Nodup := by
  rw [List.nodup_iff_getElem?_ne_getElem?]
  intro i j hij hj heq
  have hi : i < (b level slot).length := by omega
  have hget : (b level slot)[i]? = some (b level slot)[i] := List.getElem?_eq_getElem hi
  have hposi := (h level slot i _ hget).2.2.1
  have hposj := (h level slot j _ (heq.symm.trans hget)).2.2.1
  omega

theorem Linked.update {level slot : Nat} (h : Linked b m) {l : List Ptr} {m' : Ptr → Timer}
    (hlevel : level < twLevels) (hslot : slot < slots)
    (hin : ∀ pos p, l[pos]? = some p →
      (m' p).level = level ∧ (m' p).slotIndex = slot ∧ (m' p).posInBucket = pos)
    (hout : ∀ p, p ∉ l → (∃ level' slot', (level', slot') ≠ (level, slot) ∧ p ∈ b level' slot') →
      m' p = m p)
    (hdisj : ∀ p ∈ l, ∀ level' slot', (level', slot') ≠ (level, slot) → p ∉ b level' slot') :
    Linked (setBucket b level slot l) m' := by
  intro level' slot' pos p hp
  by_cases hsame : (level', slot') = (level, slot)
  · obtain ⟨rfl, rfl⟩ := Prod.mk.injEq _ _ _ _ ▸ hsame
    rw [setBucket_self] at hp
    obtain ⟨h1, h2, h3⟩ := hin pos p hp
    exact ⟨h1, h2, h3, hlevel, hslot⟩
  · rw [setBucket_of_ne b l hsame] at hp
    have hmem : p ∈ b level' slot' := List.mem_iff_getElem?.mpr ⟨pos, hp⟩
    have hnot : p ∉ l := fun hl => hdisj p hl level' slot' hsame hmem
    rw [hout p hnot ⟨level', slot', hsame, hmem⟩]
    exact h level' slot' pos p hp

end Linked

namespace TimerWheel

variable {w : TimerWheel}

/-! ## Linking -/

theorem findLevel_lt (diff : Nat) :
    ∀ left level, level + left < twLevels → findLevel diff left level < twLevels := by
  intro left
  induction left with
  | zero => intro level h; simpa [findLevel] using h
  | succ left ih =>
      intro level h
      rw [findLevel]
      split
      · exact ih (level + 1) (by omega)
      · omega

theorem place_lt (w : TimerWheel) (expiryTime : Nat) :
    (w.place expiryTime).1 < twLevels ∧ (w.place expiryTime).2 < slots := by
  refine ⟨findLevel_lt _ _ _ (by decide), ?_⟩
  have hpos : 0 < slots := by decide
  unfold place
  dsimp only
  split_ifs <;> exact Nat.mod_lt _ hpos

theorem addTimerToWheel_buckets (w : TimerWheel) (p : Ptr) (e : Nat) :
    (w.addTimerToWheel p e).buckets =
      setBucket w.buckets (w.place e).1 (w.place e).2
        (w.buckets (w.place e).1 (w.place e).2 ++ [p]) := rfl

theorem addTimerToWheel_mem (w : TimerWheel) (p : Ptr) (e : Nat) :
    (w.addTimerToWheel p e).mem =
      Function.update w.mem p { w.mem p with
        level := (w.place e).1, slotIndex := (w.place e).2,
        posInBucket := (w.buckets (w.place e).1 (w.place e).2).length } := rfl

theorem addTimerToWheel_books (w : TimerWheel) (p : Ptr) (e : Nat) :
    (w.addTimerToWheel p e).books = w.books := rfl

theorem addTimerToWheel_unplaced (w : TimerWheel) (p : Ptr) (e : Nat) (q : Ptr) :
    ((w.addTimerToWheel p e).mem q).unplaced = (w.mem q).unplaced := by
  rw [addTimerToWheel_mem]
  by_cases hq : q = p
  · subst hq
    rw [Function.update_self]
    rfl
  · rw [Function.update_of_ne hq]

theorem mem_addTimerToWheel (w : TimerWheel) (p : Ptr) (e : Nat) {level slot : Nat} {q : Ptr} :
    q ∈ (w.addTimerToWheel p e).buckets level slot ↔
      q ∈ w.buckets level slot ∨ (q = p ∧ w.place e = (level, slot)) := by
  rcases hplace : w.place e with ⟨l, s⟩
  rw [addTimerToWheel_buckets, hplace]
  by_cases h : (level, slot) = (l, s)
  · obtain ⟨rfl, rfl⟩ := Prod.mk.injEq _ _ _ _ ▸ h
    rw [setBucket_self]
    simp
  · rw [setBucket_of_ne _ _ h]
    simp [Ne.symm h]

theorem addTimerToWheel_linked (h : Linked w.buckets w.mem) {p : Ptr} (hp : ¬w.Holds p)
    (e : Nat) : Linked (w.addTimerToWheel p e).buckets (w.addTimerToWheel p e).mem := by
  rw [addTimerToWheel_buckets, addTimerToWheel_mem]
  have hplace := w.place_lt e
  set level := (w.place e).1
  set slot := (w.place e).2
  have hne : ∀ {q level' slot'}, q ∈ w.buckets level' slot' → q ≠ p := by
    rintro q level' slot' hq rfl
    exact hp ⟨_, _, hq⟩
  apply h.update hplace.1 hplace.2
  · intro pos q hq
    rcases Nat.lt_or_ge pos (w.buckets level slot).length with hlt | hge
    · rw [List.getElem?_append_left hlt] at hq
      have hqp : q ≠ p := hne (List.mem_iff_getElem?.mpr ⟨pos, hq⟩)
      obtain ⟨h1, h2, h3, -⟩ := h level slot pos q hq
      rw [Function.update_of_ne hqp]
      exact ⟨h1, h2, h3⟩
    · rw [List.getElem?_append_right hge, List.getElem?_singleton] at hq
      split at hq
      · obtain rfl := Option.some.inj hq
        rw [Function.update_self]
        have hpos : (w.buckets level slot).length = pos := by omega
        exact ⟨rfl, rfl, hpos⟩
      · contradiction
  · rintro q - ⟨level', slot', -, hq⟩
    rw [Function.update_of_ne (hne hq)]
  · intro q hq level' slot' hother hmem
    rw [List.mem_append, List.mem_singleton] at hq
    rcases hq with hq | rfl
    · obtain ⟨h1, h2, -⟩ := h.of_mem hq
      obtain ⟨h1', h2', -⟩ := h.of_mem hmem
      exact hother (by rw [← h1', ← h2', h1, h2])
    · exact hne hmem rfl

/-! ## Unlinking -/

theorem swapPopAt_buckets (w : TimerWheel) (level slot pos : Nat) :
    (w.swapPopAt level slot pos).buckets =
      setBucket w.buckets level slot (swapPop (w.buckets level slot) pos) := by
  unfold swapPopAt
  dsimp only
  split
  · cases (w.buckets level slot).getLast? <;> rfl
  · rfl

theorem swapPopAt_books (w : TimerWheel) (level slot pos : Nat) :
    (w.swapPopAt level slot pos).books = w.books := by
  unfold swapPopAt
  dsimp only
  split
  · cases (w.buckets level slot).getLast? <;> rfl
  · rfl

/-- Only the timer that fills the gap is told its new position. -/
theorem swapPopAt_mem (w : TimerWheel) (level slot pos : Nat) (q : Ptr) :
    (w.swapPopAt level slot pos).mem q =
      if pos ≠ (w.buckets level slot).length - 1 ∧ (w.buckets level slot).getLast? = some q
      then { w.mem q with posInBucket := pos } else w.mem q := by
  unfold swapPopAt
  dsimp only
  split
  · next hpos =>
      cases hlast : (w.buckets level slot).getLast? with
      | none => simp
      | some z =>
          by_cases hq : q = z
          · subst hq
            simp [modifyTimer, hpos]
          · simp [modifyTimer, Function.update_of_ne hq, Ne.symm hq]
  · next hpos => simp [hpos]

theorem swapPopAt_unplaced (w : TimerWheel) (level slot pos : Nat) (q : Ptr) :
    ((w.swapPopAt level slot pos).mem q).unplaced = (w.mem q).unplaced := by
  rw [swapPopAt_mem]
  split <;> rfl

theorem mem_swapPopAt (h : Linked w.buckets w.mem) {level slot pos : Nat} {p : Ptr}
    (hp : (w.buckets level slot)[pos]? = some p) {level' slot' : Nat} {q : Ptr} :
    q ∈ (w.swapPopAt level slot pos).buckets level' slot' ↔
      q ∈ w.buckets level' slot' ∧ q ≠ p := by
  rw [swapPopAt_buckets]
  by_cases hsame : (level', slot') = (level, slot)
  · obtain ⟨rfl, rfl⟩ := Prod.mk.injEq _ _ _ _ ▸ hsame
    rw [setBucket_self]
    exact mem_swapPop (h.nodup _ _) hp
  · rw [setBucket_of_ne _ _ hsame]
    constructor
    · intro hq
      refine ⟨hq, ?_⟩
      rintro rfl
      obtain ⟨h1, h2, -⟩ := h level slot pos q hp
      obtain ⟨h1', h2', -⟩ := h.of_mem hq
      exact hsame (by rw [← h1', ← h2', h1, h2])
    · exact fun hq => hq.1

theorem swapPopAt_linked (h : Linked w.buckets w.mem) {level slot pos : Nat} {p : Ptr}
    (hp : (w.buckets level slot)[pos]? = some p) :
    Linked (w.swapPopAt level slot pos).buckets (w.swapPopAt level slot pos).mem := by
  have hlt : pos < (w.buckets level slot).length := (List.getElem?_eq_some_iff.mp hp).1
  obtain ⟨-, -, -, hlevel, hslot⟩ := h level slot pos p hp
  rw [swapPopAt_buckets]
  apply h.update hlevel hslot
  · intro i q hq
    rw [swapPopAt_mem]
    obtain ⟨hi, hold⟩ := getElem?_of_swapPop hq
    by_cases hipos : i = pos
    · rw [if_pos hipos] at hold
      obtain ⟨h1, h2, -⟩ := h level slot _ q hold
      rw [if_pos ⟨by omega, by rw [List.getLast?_eq_getElem?]; exact hold⟩]
      exact ⟨h1, h2, hipos.symm⟩
    · rw [if_neg hipos] at hold
      obtain ⟨h1, h2, h3, -⟩ := h level slot _ q hold
      rw [if_neg]
      · exact ⟨h1, h2, h3⟩
      · rintro ⟨-, hlast⟩
        rw [List.getLast?_eq_getElem?] at hlast
        have hpos := (h level slot _ q hlast).2.2.1
        omega
  · rintro q - ⟨level', slot', hother, hq⟩
    rw [swapPopAt_mem, if_neg]
    rintro ⟨-, hlast⟩
    obtain ⟨h1, h2, -⟩ := h.of_mem (List.mem_of_getLast? hlast)
    obtain ⟨h1', h2', -⟩ := h.of_mem hq
    exact hother (by rw [← h1', ← h2', h1, h2])
  · intro q hq level' slot' hother hmem
    have hold := (mem_swapPop (h.nodup level slot) hp).mp hq
    obtain ⟨h1, h2, -⟩ := h.of_mem hold.1
    obtain ⟨h1', h2', -⟩ := h.of_mem hmem
    exact hother (by rw [← h1', ← h2', h1, h2])

/-- A timer that is linked is found at its recorded position. -/
theorem popEntry_eq (h : Linked w.buckets w.mem) {p : Ptr} {level slot : Nat}
    (hp : p ∈ w.buckets level slot) :
    w.popEntry p = w.swapPopAt level slot (w.mem p).posInBucket := by
  obtain ⟨hlevel, hslot, hpos, -⟩ := h.of_mem hp
  unfold popEntry
  simp only [hlevel, hslot, hpos, if_true]

theorem removeTimerFromWheel_eq (h : Linked w.buckets w.mem) {p : Ptr} {level slot : Nat}
    (hp : p ∈ w.buckets level slot) :
    w.removeTimerFromWheel p =
      ((w.touch p).swapPopAt level slot (w.mem p).posInBucket).markDirty
        (w.mem p).expiryTime := by
  obtain ⟨hlevel, -, -, hlt, -⟩ := h.of_mem hp
  have hpop : (w.touch p).popEntry p =
      (w.touch p).swapPopAt level slot (w.mem p).posInBucket :=
    popEntry_eq (w := w.touch p) h hp
  unfold removeTimerFromWheel
  rw [if_neg (by omega), hpop]

/-! ## Relinking during a sweep -/

/-- Pushing a timer into the bucket being swept and popping its old entry gives
the same buckets and places back. -/
theorem relink_same (h : Linked w.buckets w.mem) {p : Ptr} {level slot e : Nat}
    (hp : (w.buckets level slot)[0]? = some p) (hplace : w.place e = (level, slot)) :
    ((w.addTimerToWheel p e).swapPopAt level slot 0).buckets = w.buckets ∧
      ((w.addTimerToWheel p e).swapPopAt level slot 0).mem = w.mem := by
  obtain ⟨hlevel, hslot, hpos, -⟩ := h level slot 0 p hp
  have hbucket : (w.addTimerToWheel p e).buckets level slot = w.buckets level slot ++ [p] := by
    rw [addTimerToWheel_buckets, hplace, setBucket_self]
  obtain ⟨rest, hrest⟩ : ∃ rest, w.buckets level slot = p :: rest := by
    cases hb : w.buckets level slot with
    | nil => rw [hb] at hp; contradiction
    | cons q rest =>
        rw [hb, List.getElem?_cons_zero] at hp
        exact ⟨rest, by rw [Option.some.inj hp]⟩
  constructor
  · rw [swapPopAt_buckets, hbucket, addTimerToWheel_buckets, hplace]
    have hpop : swapPop (w.buckets level slot ++ [p]) 0 = w.buckets level slot := by
      rw [hrest, swapPop, List.getLast?_concat]
      change (p :: rest ++ [p]).dropLast = p :: rest
      rw [List.dropLast_concat]
    rw [hpop]
    funext l s
    by_cases hls : (l, s) = (level, slot)
    · obtain ⟨rfl, rfl⟩ := Prod.mk.injEq _ _ _ _ ▸ hls
      rw [setBucket_self]
    · rw [setBucket_of_ne _ _ hls, setBucket_of_ne _ _ hls]
  · funext q
    rw [swapPopAt_mem, hbucket, addTimerToWheel_mem, hplace]
    by_cases hq : q = p
    · subst hq
      rw [if_pos ⟨by rw [hrest]; simp, by simp⟩, Function.update_self, ← hlevel, ← hslot, ← hpos]
    · rw [if_neg (by simp [Ne.symm hq]), Function.update_of_ne hq]

/-- Pushing into another bucket and popping the old entry may be done in either order. -/
theorem relink_comm (h : Linked w.buckets w.mem) {p : Ptr} {level slot e : Nat}
    (hp : (w.buckets level slot)[0]? = some p) (hplace : w.place e ≠ (level, slot)) :
    ((w.addTimerToWheel p e).swapPopAt level slot 0).buckets =
        ((w.swapPopAt level slot 0).addTimerToWheel p e).buckets ∧
      ((w.addTimerToWheel p e).swapPopAt level slot 0).mem =
        ((w.swapPopAt level slot 0).addTimerToWheel p e).mem := by
  have hcur : (w.swapPopAt level slot 0).currentTime = w.currentTime :=
    congrArg Books.currentTime (w.swapPopAt_books level slot 0)
  have hplace' : (w.swapPopAt level slot 0).place e = w.place e := by
    unfold place
    rw [hcur]
  rcases htarget : w.place e with ⟨l, s⟩
  rw [htarget] at hplace hplace'
  have hbucket : (w.addTimerToWheel p e).buckets level slot = w.buckets level slot := by
    rw [addTimerToWheel_buckets, htarget, setBucket_of_ne _ _ (Ne.symm hplace)]
  have hother : (w.swapPopAt level slot 0).buckets l s = w.buckets l s := by
    rw [swapPopAt_buckets, setBucket_of_ne _ _ hplace]
  constructor
  · rw [addTimerToWheel_buckets, hplace', hother, swapPopAt_buckets, hbucket,
      addTimerToWheel_buckets, htarget, swapPopAt_buckets, setBucket_comm _ _ _ (Ne.symm hplace)]
  · funext q
    rw [swapPopAt_mem, hbucket, addTimerToWheel_mem, addTimerToWheel_mem, hplace', htarget,
      hother]
    have hlast : ¬(0 ≠ (w.buckets level slot).length - 1 ∧
        (w.buckets level slot).getLast? = some p) := by
      rintro ⟨hne, hlast⟩
      rw [List.getLast?_eq_getElem?] at hlast
      have h0 := (h level slot 0 p hp).2.2.1
      have h1 := (h level slot _ p hlast).2.2.1
      omega
    by_cases hq : q = p
    · subst hq
      rw [if_neg hlast, Function.update_self, Function.update_self, swapPopAt_mem, if_neg hlast]
    · rw [Function.update_of_ne hq, Function.update_of_ne hq, swapPopAt_mem]

theorem relink_linked (h : Linked w.buckets w.mem) {p : Ptr} {level slot : Nat} (e : Nat)
    (hp : (w.buckets level slot)[0]? = some p) :
    Linked ((w.addTimerToWheel p e).swapPopAt level slot 0).buckets
      ((w.addTimerToWheel p e).swapPopAt level slot 0).mem := by
  by_cases hplace : w.place e = (level, slot)
  · obtain ⟨hb, hm⟩ := relink_same h hp hplace
    rw [hb, hm]
    exact h
  · obtain ⟨hb, hm⟩ := relink_comm h hp hplace
    rw [hb, hm]
    apply addTimerToWheel_linked (swapPopAt_linked h hp)
    rintro ⟨l, s, hmem⟩
    exact ((mem_swapPopAt h hp).mp hmem).2 rfl

theorem mem_relink (h : Linked w.buckets w.mem) {p : Ptr} {level slot : Nat} (e : Nat)
    (hp : (w.buckets level slot)[0]? = some p) {level' slot' : Nat} {q : Ptr} :
    q ∈ ((w.addTimerToWheel p e).swapPopAt level slot 0).buckets level' slot' ↔
      (q ∈ w.buckets level' slot' ∧ q ≠ p) ∨ (q = p ∧ w.place e = (level', slot')) := by
  by_cases hplace : w.place e = (level, slot)
  · rw [(relink_same h hp hplace).1, hplace]
    by_cases hq : q = p
    · subst hq
      have hmem : q ∈ w.buckets level slot := List.mem_of_getElem? hp
      simp only [ne_eq, not_true_eq_false, and_false, true_and, false_or, Prod.mk.injEq]
      constructor
      · intro hq'
        obtain ⟨h1, h2, -⟩ := h.of_mem hmem
        obtain ⟨h1', h2', -⟩ := h.of_mem hq'
        exact ⟨by rw [← h1, h1'], by rw [← h2, h2']⟩
      · rintro ⟨rfl, rfl⟩
        exact hmem
    · simp [hq]
  · have hplace' : (w.swapPopAt level slot 0).place e = w.place e := by
      unfold place
      rw [show (w.swapPopAt level slot 0).currentTime = w.currentTime from
        congrArg Books.currentTime (w.swapPopAt_books level slot 0)]
    rw [(relink_comm h hp hplace).1, mem_addTimerToWheel, mem_swapPopAt h hp, hplace']

end TimerWheel

end Uvent.Timers
