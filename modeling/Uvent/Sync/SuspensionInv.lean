import Uvent.Sync.Suspension

/-!
# What holds of one suspension

The nodes of a coroutine are in the lists only while it is in the suspension that pushed
them, and the word of the winner decides who puts its handle into a run queue.  Here the
steps that change one coroutine keep this, whatever `link` says which of its nodes are in
which lists.
-/

namespace Uvent.Sync.Suspension

variable {Λ : Type}

def Phase.place : Phase Λ → Nat → Option (Place Λ)
  | .attach w k, j => if j < k then w.places[j]? else none
  | .startTimer w k, j | .look w k, j => if j ≤ k then w.places[j]? else none
  | .undo l, j => if j = 0 then some (.listed l) else none
  | .arm w, j | .withdraw w, j | .suspended w, j => w.places[j]?
  | .detach ops why k _, j => if why ≠ .again ∧ k ≤ j then ops[j]? else none
  | .running, _ | .check _, _ | .readWinner _, _ | .resumed _, _ => none

def Phase.attached : Phase Λ → Bool
  | .attach .. | .startTimer .. | .look .. | .undo .. | .arm .. | .withdraw .. | .suspended .. => true
  | _ => false

/-- The suspension is one of `OpWait`. -/
def Phase.plain : Phase Λ → Bool
  | .attach (.op _) _ | .startTimer (.op _) _ | .look (.op _) _ | .undo _ | .arm (.op _)
  | .withdraw (.op _) | .suspended (.op _) => true
  | _ => false

/-- Outside of a suspension, before the first push, before `arm_cancel`, behind it,
suspended, behind the own claim of cancellation, and behind the resumption. -/
inductive Kind where
  | out
  | fresh
  | opening
  | revoking
  | parked
  | givingUp
  | leaving
  deriving DecidableEq, Repr

def Phase.kind : Phase Λ → Kind
  | .running => .out
  | .check _ => .fresh
  | .attach .. | .startTimer .. | .look .. | .undo _ | .arm _ | .readWinner _
  | .detach _ .undo .. => .opening
  | .withdraw _ => .revoking
  | .suspended _ => .parked
  | .detach _ .giveUp .. => .givingUp
  | .detach _ .resume .. | .detach _ .again .. | .resumed _ => .leaving

/-- Who has won, how far `on_cancel` is, which timer is about to put the handle into a
run queue, and how often it was put there. -/
inductive Account : Winner → HookPc → Option Nat → Nat → Prop where
  | quiet : Account .none .idle none 0
  | removed : Account .none .store none 0
  | firing (k : Nat) : Account (.index k) .idle (some k) 0
  | fired (k : Nat) : Account (.index k) .idle none 1
  | cancelling : Account .cancelled .enqueue none 0
  | kicked : Account .cancelled .idle none 1

def Coro.Done (c : Coro Λ) (n : Nat) : Prop :=
  c.verdict n = some false ∧ c.wakes n = 0 ∨ c.verdict n = some true ∧ c.wakes n = 1

/-- Wakers may find the coroutine; `link` says which nodes are in which list. -/
structure Coro.Open (c : Coro Λ) (link : Nat → Λ → Prop) : Prop where
  account : ∃ who, Account c.winner c.hookPc who (c.wakes c.turn) ∧
    ∀ k, (∃ n, (c.sleepers k).timer = .enqueue n) ↔ who = some k
  queued : c.queued = c.wakes c.turn
  linked : c.phase.attached = true → c.winner = .none → c.hookPc = .idle →
    ∀ j l, c.phase.place j = some (.listed l) → link j l
  plain : c.phase.plain = true → ∀ j l, link j l → c.winner = .none ∧ c.hookPc = .idle
  hooked : ∀ w, c.hook = some w → c.phase = .withdraw w ∨ c.phase = .suspended w
  stored : c.hookPc = .store → c.phase.plain = true

structure Coro.Shut (c : Coro Λ) : Prop where
  hook : c.hook = none
  hookPc : c.hookPc = .idle
  queued : c.queued = 0
  timers : ∀ k n, (c.sleepers k).timer ≠ .enqueue n

def Coro.At (c : Coro Λ) (link : Nat → Λ → Prop) : Kind → Prop
  | .out => c.Shut ∧ (c.turn = 0 ∨ c.Done c.turn)
  | .fresh => c.Shut ∧ c.winner = .none ∧ c.wakes c.turn = 0 ∧ c.verdict c.turn = none
  | .opening => c.Open link ∧ c.hook = none ∧ c.hookPc = .idle ∧ c.verdict c.turn = none ∧
      ∀ w, c.phase = .attach w 0 → c.winner = .none
  | .revoking => c.Open link ∧ c.verdict c.turn = none
  | .parked => c.Open link ∧ c.verdict c.turn = some true
  | .givingUp => c.Shut ∧ c.winner = .cancelled ∧ c.wakes c.turn = 0 ∧ c.verdict c.turn = none
  | .leaving => c.Shut ∧ c.Done c.turn ∧ (c.winner = .none → ∀ j, c.phase.place j = none)

/-- `SleepOp::detach` has taken the pointer back. -/
def Phase.exchanged : Phase Λ → Nat → Bool
  | .detach _ _ k part, j => decide (j = k) && decide (part ≠ .exchange)
  | _, _ => false

structure Coro.Sleeps (c : Coro Λ) (k : Nat) : Prop where
  waiter : ∀ n, (c.sleepers k).waiter = some n → n = c.turn ∧ c.phase.place k = some .sleep ∧
    ∀ m, (c.sleepers k).timer ≠ .claim m ∧ (c.sleepers k).timer ≠ .enqueue m
  claim : ∀ n, (c.sleepers k).timer = .claim n → n = c.turn ∧ c.phase.place k = some .sleep
  enqueue : ∀ n, (c.sleepers k).timer = .enqueue n → n = c.turn ∧ c.phase.place k = some .sleep
  gone : c.phase.exchanged k = true → (c.sleepers k).waiter = none

structure Coro.Ok (c : Coro Λ) (link : Nat → Λ → Prop) : Prop where
  place : ∀ j l, link j l → c.phase.place j = some (.listed l)
  sleeps : ∀ k, c.Sleeps k
  past : ∀ n, 0 < n → n < c.turn → c.Done n
  future : ∀ n, c.turn < n → c.verdict n = none ∧ c.wakes n = 0
  now : c.At link c.phase.kind

theorem ok_new : (Coro.new : Coro Λ).Ok (fun _ _ => False) where
  place := nofun
  sleeps := fun _ => ⟨nofun, nofun, nofun, nofun⟩
  past := fun n _ h => absurd h (Nat.not_lt_zero n)
  future := fun _ _ => ⟨rfl, rfl⟩
  now := ⟨⟨rfl, rfl, rfl, fun _ _ => nofun⟩, .inl rfl⟩

/-! ### One coroutine -/

section Coroutine

variable {c c' : Coro Λ} {link link' : Nat → Λ → Prop}

theorem Coro.Ok.step (h : c.Ok link) (hturn : c'.turn = c.turn)
    (hverdict : ∀ n, n ≠ c.turn → c'.verdict n = c.verdict n)
    (hwakes : ∀ n, n ≠ c.turn → c'.wakes n = c.wakes n)
    (hplace : ∀ j l, link' j l → c'.phase.place j = some (.listed l))
    (hsleeps : ∀ k, c'.Sleeps k) (hnow : c'.At link' c'.phase.kind) : c'.Ok link' := by
  refine ⟨hplace, hsleeps, fun n hpos hlt => ?_, fun n hlt => ?_, hnow⟩
  · rw [hturn] at hlt
    unfold Coro.Done
    rw [hverdict n (by omega), hwakes n (by omega)]
    exact h.past n hpos hlt
  · rw [hturn] at hlt
    rw [hverdict n (by omega), hwakes n (by omega)]
    exact h.future n hlt

theorem Coro.Sleeps.congr {k : Nat} (h : c.Sleeps k) (hsleeper : c'.sleepers k = c.sleepers k)
    (hturn : c'.turn = c.turn)
    (hplace : c.phase.place k = some .sleep → c'.phase.place k = some .sleep)
    (hgone : c'.phase.exchanged k = true → (c.sleepers k).waiter = none) : c'.Sleeps k := by
  refine ⟨fun n hn => ?_, fun n hn => ?_, fun n hn => ?_, fun hp => hsleeper ▸ hgone hp⟩
  · rw [hsleeper] at hn ⊢
    obtain ⟨rfl, hp, hm⟩ := h.waiter n hn
    exact ⟨hturn.symm, hplace hp, hm⟩
  · rw [hsleeper] at hn
    obtain ⟨rfl, hp⟩ := h.claim n hn
    exact ⟨hturn.symm, hplace hp⟩
  · rw [hsleeper] at hn
    obtain ⟨rfl, hp⟩ := h.enqueue n hn
    exact ⟨hturn.symm, hplace hp⟩

theorem Coro.Sleeps.of_idle {k : Nat} (hwaiter : (c.sleepers k).waiter = none)
    (hclaim : ∀ n, (c.sleepers k).timer ≠ .claim n)
    (henqueue : ∀ n, (c.sleepers k).timer ≠ .enqueue n) : c.Sleeps k :=
  ⟨fun _ hn => absurd (hwaiter.symm.trans hn) nofun, fun n hn => absurd hn (hclaim n),
    fun n hn => absurd hn (henqueue n), fun _ => hwaiter⟩

theorem Coro.Sleeps.idle {k : Nat} (h : c.Sleeps k) (hplace : c.phase.place k ≠ some .sleep) :
    (c.sleepers k).waiter = none ∧ (∀ n, (c.sleepers k).timer ≠ .claim n) ∧
      ∀ n, (c.sleepers k).timer ≠ .enqueue n := by
  refine ⟨?_, fun n hn => hplace (h.claim n hn).2, fun n hn => hplace (h.enqueue n hn).2⟩
  cases hw : (c.sleepers k).waiter with
  | none => rfl
  | some n => exact absurd (h.waiter n hw).2.1 hplace

theorem Account.wakes_eq {w : Winner} {pc : HookPc} {who : Option Nat} {n : Nat}
    (h : Account w pc who n) (hpos : 0 < n) : n = 1 ∧ w ≠ .none ∧ pc = .idle ∧ who = none := by
  cases h with
  | fired | kicked => exact ⟨rfl, nofun, rfl, rfl⟩
  | _ => cases hpos

theorem Account.of_none {pc : HookPc} {who : Option Nat} {n : Nat} (h : Account .none pc who n) :
    who = none ∧ n = 0 ∧ (pc = .idle ∨ pc = .store) := by
  cases h with
  | quiet => exact ⟨rfl, rfl, .inl rfl⟩
  | removed => exact ⟨rfl, rfl, .inr rfl⟩

/-- Nobody has won, and `on_cancel` has not taken the node. -/
theorem Coro.Open.quiet (h : c.Open link) (hw : c.winner = .none) (hpc : c.hookPc ≠ .store) :
    c.hookPc = .idle ∧ c.wakes c.turn = 0 ∧ c.queued = 0 ∧
      ∀ k n, (c.sleepers k).timer ≠ .enqueue n := by
  obtain ⟨who, haccount, hwho⟩ := h.account
  rw [hw] at haccount
  obtain ⟨rfl, hwakes, hidle⟩ := haccount.of_none
  refine ⟨hidle.resolve_right hpc, hwakes, h.queued.trans hwakes, fun k n hn => ?_⟩
  cases (hwho k).mp ⟨n, hn⟩

theorem Coro.Ok.at_kind (h : c.Ok link) {kind : Kind} (hkind : c.phase.kind = kind) :
    c.At link kind := hkind ▸ h.now

theorem Coro.Ok.unlinked (h : c.Ok link) (hplace : ∀ j, c.phase.place j = none) (j : Nat) (l : Λ) :
    ¬ link j l := by
  intro hlink
  have hp := h.place j l hlink
  rw [hplace j] at hp
  cases hp

theorem Coro.Ok.request (h : c.Ok link) :
    ({ c with requested := true } : Coro Λ).Ok link := by
  refine h.step rfl (fun _ _ => rfl) (fun _ _ => rfl) h.place
    (fun k => (h.sleeps k).congr rfl rfl id (h.sleeps k).gone) ?_
  have hopen : c.Open link → ({ c with requested := true } : Coro Λ).Open link := fun ho =>
    ⟨ho.account, ho.queued, ho.linked, ho.plain, ho.hooked, ho.stored⟩
  have hshut : c.Shut → ({ c with requested := true } : Coro Λ).Shut := fun hs =>
    ⟨hs.hook, hs.hookPc, hs.queued, hs.timers⟩
  have hnow := h.now
  show Coro.At _ link c.phase.kind
  generalize c.phase.kind = kind at hnow ⊢
  cases kind with
  | out => exact ⟨hshut hnow.1, hnow.2⟩
  | fresh => exact ⟨hshut hnow.1, hnow.2⟩
  | opening => exact ⟨hopen hnow.1, hnow.2⟩
  | revoking => exact ⟨hopen hnow.1, hnow.2⟩
  | parked => exact ⟨hopen hnow.1, hnow.2⟩
  | givingUp => exact ⟨hshut hnow.1, hnow.2⟩
  | leaving => exact ⟨hshut hnow.1, hnow.2⟩

theorem Coro.Ok.start (h : c.Ok link) (hphase : c.phase = .running) (w : Wait Λ) :
    (c.start w).Ok link := by
  obtain ⟨hshut, hdone⟩ := h.at_kind (show c.phase.kind = .out by rw [hphase]; rfl)
  have hplace : ∀ j, c.phase.place j = none := fun j => by rw [hphase]; rfl
  refine ⟨fun j l hlink => absurd hlink (h.unlinked hplace j l), fun k => ?_, fun n hpos hlt => ?_,
    fun n hlt => h.future n (by simp only [Coro.start] at hlt; omega), ?_⟩
  · obtain ⟨hw, hc, he⟩ := (h.sleeps k).idle (by rw [hplace k]; nofun)
    exact .of_idle hw hc he
  · have hlt' : n < c.turn + 1 := hlt
    rcases Nat.lt_or_ge n c.turn with hless | hmore
    · exact h.past n hpos hless
    · obtain rfl : n = c.turn := by omega
      obtain hzero | hdone := hdone
      · omega
      · exact hdone
  · obtain ⟨hverdict, hwakes⟩ := h.future (c.turn + 1) (Nat.lt_succ_self _)
    exact ⟨⟨hshut.hook, hshut.hookPc, hshut.queued, hshut.timers⟩, rfl, hwakes, hverdict⟩

theorem Coro.Ok.out (h : c.Ok link) (hturn : c'.turn = c.turn) (hphase : c'.phase = .running)
    (hverdict : ∀ n, n ≠ c.turn → c'.verdict n = c.verdict n)
    (hwakes : ∀ n, n ≠ c.turn → c'.wakes n = c.wakes n) (hshut : c'.Shut) (hdone : c'.Done c'.turn)
    (hlink : ∀ j l, ¬ link' j l)
    (hidle : ∀ k, (c'.sleepers k).waiter = none ∧ ∀ n, (c'.sleepers k).timer ≠ .claim n) :
    c'.Ok link' := by
  refine h.step hturn hverdict hwakes (fun j l hl => absurd hl (hlink j l)) (fun k => ?_) ?_
  · exact .of_idle (hidle k).1 (hidle k).2 (hshut.timers k)
  · rw [hphase]
    exact ⟨hshut, .inr hdone⟩

theorem Coro.Ok.ownCancel (h : c.Ok link) (hshut : c.Shut) (hwakes : c.wakes c.turn = 0)
    (hlink : ∀ j l, ¬ link' j l) (hidle : ∀ k, (c.sleepers k).waiter = none ∧
      ∀ n, (c.sleepers k).timer ≠ .claim n) : c.ownCancel.Ok link' :=
  h.out rfl rfl (fun _ hn => Function.update_of_ne hn ..) (fun _ _ => rfl)
    ⟨hshut.hook, hshut.hookPc, hshut.queued, hshut.timers⟩
    (.inl ⟨Function.update_self .., hwakes⟩) hlink hidle

theorem Coro.Ok.opening (h : c.Ok link) (hkind : c.phase.kind = .opening) {p : Phase Λ}
    {f : Nat → Sleeper} (hp : p.kind = .opening) (hfirst : ∀ w, p ≠ .attach w 0)
    (hplace : ∀ j l, link' j l → p.place j = some (.listed l))
    (hsleeps : ∀ k, ({ c with phase := p, sleepers := f } : Coro Λ).Sleeps k)
    (hfiring : ∀ k, (∃ n, (f k).timer = .enqueue n) ↔ ∃ n, (c.sleepers k).timer = .enqueue n)
    (hlinked : p.attached = true → c.winner = .none →
      ∀ j l, p.place j = some (.listed l) → link' j l)
    (hplain : p.plain = true → ∀ j l, link' j l → c.winner = .none) :
    ({ c with phase := p, sleepers := f } : Coro Λ).Ok link' := by
  obtain ⟨hopen, hhook, hpc, hverdict, -⟩ := h.at_kind hkind
  refine h.step rfl (fun _ _ => rfl) (fun _ _ => rfl) hplace hsleeps ?_
  show Coro.At _ link' p.kind
  rw [hp]
  refine ⟨⟨?_, hopen.queued, fun ha hw _ => hlinked ha hw,
    fun hpl j l hl => ⟨hplain hpl j l hl, hpc⟩, ?_, ?_⟩, hhook, hpc, hverdict, ?_⟩
  · obtain ⟨who, haccount, hwho⟩ := hopen.account
    exact ⟨who, haccount, fun k => (hfiring k).trans (hwho k)⟩
  · intro w hw
    rw [hhook] at hw
    cases hw
  · intro hstore
    rw [hpc] at hstore
    cases hstore
  · exact fun w hw => absurd hw (hfirst w)

theorem Coro.Ok.check (h : c.Ok link) {w : Wait Λ} (hphase : c.phase = .check w) :
    (if c.requested then c.ownCancel else { c with phase := w.attachFrom 0 }).Ok link := by
  obtain ⟨hshut, hwinner, hwakes, hverdict⟩ := h.at_kind (show c.phase.kind = .fresh by rw [hphase]; rfl)
  have hplace : ∀ j, c.phase.place j = none := fun j => by rw [hphase]; rfl
  have hidle := fun k => (h.sleeps k).idle (by rw [hplace k]; nofun)
  split
  · exact h.ownCancel hshut hwakes (h.unlinked hplace) fun k => ⟨(hidle k).1, (hidle k).2.1⟩
  · have hkind : (w.attachFrom 0).kind = .opening := by
      unfold Wait.attachFrom
      split <;> rfl
    have hnone : ∀ j, (w.attachFrom 0).place j = none := by
      intro j
      unfold Wait.attachFrom
      split
      · simp [Phase.place]
      · rename_i hlen
        have : w.places[j]? = none := by simp; omega
        exact this
    refine h.step rfl (fun _ _ => rfl) (fun _ _ => rfl)
      (fun j l hl => absurd hl (h.unlinked hplace j l))
      (fun k => .of_idle (hidle k).1 (hidle k).2.1 (hidle k).2.2) ?_
    show Coro.At _ link (w.attachFrom 0).kind
    rw [hkind]
    refine ⟨⟨⟨none, ?_, fun k => ?_⟩, ?_, ?_, ?_, ?_, ?_⟩, hshut.hook, hshut.hookPc, hverdict,
      fun _ _ => hwinner⟩
    · simp only [hwinner, hshut.hookPc, hwakes]
      exact .quiet
    · exact iff_of_false (fun ⟨n, hn⟩ => hshut.timers k n hn) nofun
    · simp only [hshut.queued, hwakes]
    · intro _ _ _ j l hj
      rw [show (w.attachFrom 0).place j = none from hnone j] at hj
      cases hj
    · exact fun _ _ _ _ => ⟨hwinner, hshut.hookPc⟩
    · intro w' hw'
      rw [show c.hook = none from hshut.hook] at hw'
      cases hw'
    · intro hstore
      rw [show c.hookPc = .idle from hshut.hookPc] at hstore
      cases hstore

theorem Phase.place_look_of_attach {w : Wait Λ} {j k : Nat} {x : Place Λ}
    (h : (Phase.attach w k).place j = some x) : (Phase.look w k).place j = some x := by
  simp only [Phase.place] at h ⊢
  split at h
  · rename_i hlt
    rw [if_pos (Nat.le_of_lt hlt), h]
  · cases h

theorem Phase.place_look {w : Wait Λ} {j k : Nat} {x : Place Λ}
    (h : (Phase.look w k).place j = some x) :
    (Phase.attach w k).place j = some x ∨ j = k ∧ w.places[k]? = some x := by
  simp only [Phase.place] at h ⊢
  split at h
  · rename_i hle
    rcases Nat.lt_or_ge j k with hlt | hge
    · exact .inl (by rw [if_pos hlt, h])
    · obtain rfl : j = k := by omega
      exact .inr ⟨rfl, h⟩
  · cases h

theorem Coro.Ok.attachListed (h : c.Ok link) {w : Wait Λ} {k : Nat} {l : Λ}
    (hphase : c.phase = .attach w k) (hat : w.places[k]? = some (.listed l)) :
    ({ c with phase := .look w k } : Coro Λ).Ok (fun j l' => link j l' ∨ j = k ∧ l' = l) := by
  have hkind : c.phase.kind = .opening := by rw [hphase]; rfl
  obtain ⟨hopen, -, hpc, -, hfirst⟩ := h.at_kind hkind
  refine h.opening hkind rfl nofun ?_ (fun j => (h.sleeps j).congr rfl rfl (fun hp => ?_) nofun)
    (fun _ => Iff.rfl) ?_ ?_
  · rintro j l' (hl | ⟨rfl, rfl⟩)
    · have hp := h.place j l' hl
      rw [hphase] at hp
      exact Phase.place_look_of_attach hp
    · simp [Phase.place, hat]
  · rw [hphase] at hp
    exact Phase.place_look_of_attach hp
  · intro _ hw j l' hj
    obtain hj | ⟨rfl, hj⟩ := Phase.place_look hj
    · exact .inl (hopen.linked (by rw [hphase]; rfl) hw hpc j l' (by rw [hphase, hj]))
    · rw [hat] at hj
      exact .inr ⟨rfl, (Place.listed.inj (Option.some.inj hj)).symm⟩
  · intro hplain j l' hl
    cases w with
    | op l₀ =>
      obtain hl | ⟨rfl, rfl⟩ := hl
      · exact (hopen.plain (by rw [hphase]; rfl) j l' hl).1
      · have hk : j = 0 := by
          by_contra hne
          simp [Wait.places, hne] at hat
        exact hfirst (.op l₀) (by rw [hphase, hk])
    | select ops => cases hplain

theorem Coro.setSleeper_self {k : Nat} {x : Sleeper} : (c.setSleeper k x).sleepers k = x :=
  Function.update_self ..

theorem Coro.setSleeper_of_ne {j k : Nat} {x : Sleeper} (h : j ≠ k) :
    (c.setSleeper k x).sleepers j = c.sleepers j := Function.update_of_ne h ..

theorem Coro.Ok.attachSleep (h : c.Ok link) {w : Wait Λ} {k : Nat}
    (hphase : c.phase = .attach w k) (hat : w.places[k]? = some .sleep) :
    ({ c.setWaiter k (some c.turn) with phase := .startTimer w k } : Coro Λ).Ok link := by
  have hkind : c.phase.kind = .opening := by rw [hphase]; rfl
  obtain ⟨hopen, -, hpc, -, -⟩ := h.at_kind hkind
  have hnone : c.phase.place k = none := by rw [hphase]; simp [Phase.place]
  obtain ⟨-, hclaim, henqueue⟩ := (h.sleeps k).idle (by rw [hnone]; nofun)
  refine h.opening hkind rfl nofun ?_ (fun j => ?_) (fun j => ?_) ?_ ?_
  · intro j l hl
    have hp := h.place j l hl
    rw [hphase] at hp
    exact Phase.place_look_of_attach hp
  · by_cases hj : j = k
    · subst hj
      refine ⟨fun n hn => ?_, fun n hn => ?_, fun n hn => ?_, nofun⟩
      · simp only [Coro.setWaiter, setSleeper_self] at hn ⊢
        exact ⟨(Option.some.inj hn).symm, by simp [Phase.place, hat], fun m => ⟨hclaim m, henqueue m⟩⟩
      · simp only [Coro.setWaiter, setSleeper_self] at hn
        exact absurd hn (hclaim n)
      · simp only [Coro.setWaiter, setSleeper_self] at hn
        exact absurd hn (henqueue n)
    · refine (h.sleeps j).congr (setSleeper_of_ne hj) rfl (fun hp => ?_) nofun
      rw [hphase] at hp
      exact Phase.place_look_of_attach hp
  · by_cases hj : j = k
    · subst hj
      simp only [Coro.setWaiter, setSleeper_self]
    · simp only [Coro.setWaiter, setSleeper_of_ne hj]
  · intro _ hw j l hj
    obtain hj | ⟨rfl, hj⟩ := Phase.place_look hj
    · exact hopen.linked (by rw [hphase]; rfl) hw hpc j l (by rw [hphase, hj])
    · rw [hat] at hj
      cases hj
  · intro hplain j l hl
    cases w with
    | op l₀ =>
      cases k with
      | zero => cases hat
      | succ k => simp [Wait.places] at hat
    | select ops => cases hplain

/-- A change of the phase alone, where the same nodes are attached. -/
theorem Coro.Ok.same (h : c.Ok link) (hkind : c.phase.kind = .opening) {p : Phase Λ}
    (hp : p.kind = .opening) (hfirst : ∀ w, p ≠ .attach w 0)
    (hplace : ∀ j x, c.phase.place j = some x → p.place j = some x)
    (hback : p.attached = true → c.phase.attached = true ∧
      ∀ j x, p.place j = some x → c.phase.place j = some x)
    (hplain : p.plain = true → c.phase.plain = true) (hgone : ∀ j, p.exchanged j = false) :
    ({ c with phase := p } : Coro Λ).Ok link := by
  obtain ⟨hopen, -, hpc, -, -⟩ := h.at_kind hkind
  refine h.opening hkind hp hfirst (fun j l hl => hplace j _ (h.place j l hl))
    (fun j => (h.sleeps j).congr rfl rfl (hplace j _) fun hj => ?_) (fun _ => Iff.rfl) ?_ ?_
  · rw [show p.exchanged j = false from hgone j] at hj
    cases hj
  · intro hattached hw j l hj
    obtain ⟨ha, hb⟩ := hback hattached
    exact hopen.linked ha hw hpc j l (hb j _ hj)
  · exact fun hpl j l hl => (hopen.plain (hplain hpl) j l hl).1

theorem Coro.Ok.attached (h : c.Ok link) {w : Wait Λ} {n : Nat} (hkind : c.phase.kind = .opening)
    (hattached : c.phase.attached = true)
    (hplain : (Phase.arm w).plain = true → c.phase.plain = true)
    (hplace : ∀ j, c.phase.place j = if j < n then w.places[j]? else none)
    (hlen : w.places.length ≤ n) : ({ c with phase := .arm w } : Coro Λ).Ok link := by
  refine h.same hkind rfl nofun (fun j x hj => ?_) (fun _ => ⟨hattached, fun j x hj => ?_⟩) hplain
    (fun _ => rfl)
  · rw [hplace] at hj
    split at hj
    · exact hj
    · cases hj
  · have hlt := (List.getElem?_eq_some_iff.mp hj).1
    rw [hplace, if_pos (by omega)]
    exact hj

theorem Coro.Ok.attachNone (h : c.Ok link) {w : Wait Λ} {k : Nat} (hphase : c.phase = .attach w k)
    (hat : w.places[k]? = none) : ({ c with phase := .arm w } : Coro Λ).Ok link := by
  have hlen : w.places.length ≤ k := by simpa using hat
  refine h.attached (by rw [hphase]; rfl) (by rw [hphase]; rfl) (fun hp => ?_) (fun j => ?_) hlen
  · rw [hphase]
    cases w with
    | op l => rfl
    | select ops => cases hp
  · rw [hphase]
    rfl

theorem Coro.Ok.startTimer (h : c.Ok link) {w : Wait Λ} {k : Nat}
    (hphase : c.phase = .startTimer w k) (timer : TimerPc)
    (htimer : timer = if (c.sleepers k).timer = .off then .armed else (c.sleepers k).timer) :
    ({ c.setTimer k timer with phase := .look w k } : Coro Λ).Ok link := by
  have hkind : c.phase.kind = .opening := by rw [hphase]; rfl
  obtain ⟨hopen, -, hpc, -, -⟩ := h.at_kind hkind
  have hclaim : ∀ n, timer = .claim n ↔ (c.sleepers k).timer = .claim n := by
    intro n
    rw [htimer]
    split
    · rename_i hoff
      rw [hoff]
      exact iff_of_false nofun nofun
    · rfl
  have henqueue : ∀ n, timer = .enqueue n ↔ (c.sleepers k).timer = .enqueue n := by
    intro n
    rw [htimer]
    split
    · rename_i hoff
      rw [hoff]
      exact iff_of_false nofun nofun
    · rfl
  have hsame : ∀ j, c.phase.place j = (Phase.look w k).place j := fun j => by rw [hphase]; rfl
  refine h.opening hkind rfl nofun (fun j l hl => ?_) (fun j => ?_) (fun j => ?_) ?_ ?_
  · rw [← hsame j]
    exact h.place j l hl
  · by_cases hj : j = k
    · subst hj
      refine ⟨fun n hn => ?_, fun n hn => ?_, fun n hn => ?_, nofun⟩
      · simp only [Coro.setTimer, setSleeper_self] at hn ⊢
        obtain ⟨hturn, hp, hm⟩ := (h.sleeps j).waiter n hn
        refine ⟨hturn, (hsame j).symm.trans hp, fun m => ⟨mt (hclaim m).mp (hm m).1, mt (henqueue m).mp (hm m).2⟩⟩
      · simp only [Coro.setTimer, setSleeper_self] at hn
        obtain ⟨hturn, hp⟩ := (h.sleeps j).claim n ((hclaim n).mp hn)
        exact ⟨hturn, (hsame j).symm.trans hp⟩
      · simp only [Coro.setTimer, setSleeper_self] at hn
        obtain ⟨hturn, hp⟩ := (h.sleeps j).enqueue n ((henqueue n).mp hn)
        exact ⟨hturn, (hsame j).symm.trans hp⟩
    · exact (h.sleeps j).congr (setSleeper_of_ne hj) rfl (fun hp => (hsame j).symm.trans hp) nofun
  · by_cases hj : j = k
    · subst hj
      simp only [Coro.setTimer, setSleeper_self, henqueue]
    · simp only [Coro.setTimer, setSleeper_of_ne hj]
  · intro _ hw j l hj
    exact hopen.linked (by rw [hphase]; rfl) hw hpc j l ((hsame j).trans hj)
  · intro hp j l hl
    refine (hopen.plain ?_ j l hl).1
    rw [hphase]
    cases w with
    | op l => rfl
    | select ops => cases hp

theorem Coro.Ok.look (h : c.Ok link) {w : Wait Λ} {k : Nat} (hphase : c.phase = .look w k)
    (wait : Bool) :
    ({ c with phase := if wait then w.attachFrom (k + 1) else w.undo } : Coro Λ).Ok link := by
  have hkind : c.phase.kind = .opening := by rw [hphase]; rfl
  cases wait with
  | true =>
    show ({ c with phase := w.attachFrom (k + 1) } : Coro Λ).Ok link
    unfold Wait.attachFrom
    split
    · refine h.same hkind rfl nofun (fun j x hj => ?_)
        (fun _ => ⟨by rw [hphase]; rfl, fun j x hj => ?_⟩) (fun hp => ?_) (fun _ => rfl)
      · simpa [hphase, Phase.place, Nat.lt_succ_iff] using hj
      · simpa [hphase, Phase.place, Nat.lt_succ_iff] using hj
      · rw [hphase]
        cases w with
        | op l => rfl
        | select ops => cases hp
    · rename_i hlen
      refine h.attached hkind (by rw [hphase]; rfl) (fun hp => ?_) (fun j => ?_)
        (Nat.le_of_not_lt hlen)
      · rw [hphase]
        cases w with
        | op l => rfl
        | select ops => cases hp
      · rw [hphase]
        simp only [Phase.place, Nat.lt_succ_iff]
  | false =>
    show ({ c with phase := w.undo } : Coro Λ).Ok link
    cases w with
    | op l =>
      refine h.same hkind rfl nofun (fun j x hj => ?_)
        (fun _ => ⟨by rw [hphase]; rfl, fun j x hj => ?_⟩) (fun _ => by rw [hphase]; rfl)
        (fun _ => rfl)
      · cases j with
        | zero => simpa [hphase, Phase.place, Wait.places, Wait.undo] using hj
        | succ j => simp [hphase, Phase.place, Wait.places] at hj
      · cases j with
        | zero => simpa [hphase, Phase.place, Wait.places, Wait.undo] using hj
        | succ j => simp [Phase.place, Wait.undo] at hj
    | select ops =>
      refine h.same hkind rfl nofun (fun j x hj => ?_) nofun nofun (fun j => by simp [Phase.exchanged, Wait.undo])
      simp only [hphase, Phase.place, Wait.undo] at hj ⊢
      split at hj
      · simpa [Wait.places] using hj
      · cases hj

theorem Coro.Ok.suspendHooked (h : c.Ok link) {w : Wait Λ} {hook : Option (Wait Λ)}
    (hopen : c.Open link) (hplace : ∀ j x, c.phase.place j = some x → w.places[j]? = some x)
    (hlinked : c.winner = .none → c.hookPc = .idle →
      ∀ j l, w.places[j]? = some (.listed l) → link j l)
    (hplain : ∀ l, w = .op l → c.phase.plain = true) (hstored : c.hookPc = .store → ∃ l, w = .op l)
    (hhooked : ∀ w', hook = some w' → w' = w) :
    (({ c with hook := hook } : Coro Λ).suspend w).Ok link := by
  refine h.step rfl (fun n hn => Function.update_of_ne hn ..) (fun _ _ => rfl)
    (fun j l hl => hplace j _ (h.place j l hl))
    (fun k => (h.sleeps k).congr rfl rfl (hplace k _) nofun) ?_
  refine ⟨⟨hopen.account, hopen.queued, fun _ => hlinked, ?_, ?_, ?_⟩, Function.update_self ..⟩
  · intro hp j l hl
    cases w with
    | op l₀ => exact hopen.plain (hplain l₀ rfl) j l hl
    | select ops => cases hp
  · intro w' hw'
    exact .inr (by rw [hhooked w' hw']; rfl)
  · intro hstore
    obtain ⟨l, rfl⟩ := hstored hstore
    rfl

theorem Coro.Ok.suspend (h : c.Ok link) {w : Wait Λ} (hopen : c.Open link)
    (hplace : ∀ j x, c.phase.place j = some x → w.places[j]? = some x)
    (hlinked : c.winner = .none → c.hookPc = .idle →
      ∀ j l, w.places[j]? = some (.listed l) → link j l)
    (hplain : ∀ l, w = .op l → c.phase.plain = true) (hstored : c.hookPc = .store → ∃ l, w = .op l)
    (hhooked : ∀ w', c.hook = some w' → w' = w) : (c.suspend w).Ok link :=
  h.suspendHooked hopen hplace hlinked hplain hstored hhooked

theorem Phase.place_plain {p : Phase Λ} {j : Nat} {x : Place Λ} (hp : p.plain = true)
    (hj : p.place j = some x) : j = 0 ∧ ∃ l, x = .listed l ∧ p.place 0 = some (.listed l) := by
  match p with
  | .attach (.op l) k =>
    cases j with
    | zero =>
      simp only [Phase.place, Wait.places] at hj
      split at hj
      · rename_i hlt
        cases hj
        exact ⟨rfl, l, rfl, if_pos hlt⟩
      · cases hj
    | succ j => simp [Phase.place, Wait.places] at hj
  | .startTimer (.op l) k | .look (.op l) k | .undo l | .arm (.op l) | .withdraw (.op l)
  | .suspended (.op l) =>
    cases j with
    | zero =>
      cases hj
      exact ⟨rfl, l, rfl, rfl⟩
    | succ j => simp [Phase.place, Wait.places] at hj

theorem Coro.Ok.only (h : c.Ok link)
    (hplain : c.phase.plain = true) {l : Λ} (hlink : link 0 l) (j : Nat) (l' : Λ) :
    ¬ (link j l' ∧ ¬ (j = 0 ∧ l' = l)) := by
  rintro ⟨hl, hne⟩
  obtain ⟨rfl, l₁, hx, hone⟩ := Phase.place_plain hplain (h.place j l' hl)
  cases hx
  obtain ⟨-, l₂, hy, htwo⟩ := Phase.place_plain hplain (h.place 0 l hlink)
  cases hy
  rw [hone] at htwo
  cases htwo
  exact hne ⟨rfl, rfl⟩

theorem Coro.Ok.undo (h : c.Ok link) {l : Λ} (hphase : c.phase = .undo l) (hlink : link 0 l)
    (hgone : ∀ j l', ¬ link' j l') :
    ({ c.returns false with phase := .resumed l } : Coro Λ).Ok link' := by
  obtain ⟨hopen, hhook, hpc, -, -⟩ := h.at_kind (show c.phase.kind = .opening by rw [hphase]; rfl)
  obtain ⟨hwinner, -⟩ := hopen.plain (by rw [hphase]; rfl) 0 l hlink
  obtain ⟨-, hwakes, hqueued, htimers⟩ := hopen.quiet hwinner (by rw [hpc]; nofun)
  have hidle : ∀ k, c.phase.place k ≠ some .sleep := by
    intro k hk
    obtain ⟨-, l', hx, -⟩ := Phase.place_plain (by rw [hphase]; rfl) hk
    cases hx
  refine h.step rfl (fun n hn => Function.update_of_ne hn ..) (fun _ _ => rfl)
    (fun j l' hl => absurd hl (hgone j l')) (fun k => ?_) ?_
  · obtain ⟨hw, hc, he⟩ := (h.sleeps k).idle (hidle k)
    exact .of_idle hw hc he
  · exact ⟨⟨hhook, hpc, hqueued, htimers⟩, .inl ⟨Function.update_self .., hwakes⟩, fun _ _ => rfl⟩

theorem Coro.Ok.arm (h : c.Ok link) {w : Wait Λ} (hphase : c.phase = .arm w) :
    (if c.requested then ({ c with hook := some w, phase := .withdraw w } : Coro Λ)
      else ({ c with hook := some w } : Coro Λ).suspend w).Ok link := by
  obtain ⟨hopen, hhook, hpc, hverdict, -⟩ :=
    h.at_kind (show c.phase.kind = .opening by rw [hphase]; rfl)
  have hplain : ∀ l, w = .op l → c.phase.plain = true := by
    rintro l rfl
    rw [hphase]
    rfl
  have hstored : c.hookPc = .store → ∃ l, w = .op l := fun hs => absurd (hpc.symm.trans hs) nofun
  have hlinked : c.winner = .none → c.hookPc = .idle →
      ∀ j l, w.places[j]? = some (.listed l) → link j l := by
    intro hw hi j l hj
    exact hopen.linked (by rw [hphase]; rfl) hw hi j l (by rw [hphase]; exact hj)
  have hplace : ∀ j x, c.phase.place j = some x → w.places[j]? = some x := by
    intro j x hj
    rw [hphase] at hj
    exact hj
  split
  · refine h.step rfl (fun _ _ => rfl) (fun _ _ => rfl) (fun j l hl => hplace j _ (h.place j l hl))
      (fun k => (h.sleeps k).congr rfl rfl (hplace k _) nofun) ?_
    refine ⟨⟨hopen.account, hopen.queued, fun _ => hlinked, ?_, ?_, ?_⟩, hverdict⟩
    · intro hp j l hl
      cases w with
      | op l₀ => exact hopen.plain (hplain l₀ rfl) j l hl
      | select ops => cases hp
    · intro w' hw'
      exact .inl (by rw [Option.some.inj hw'])
    · exact fun hs => absurd (hpc.symm.trans hs) nofun
  · exact h.suspendHooked hopen hplace hlinked hplain hstored fun _ hw' => (Option.some.inj hw').symm

/-- Only nodes leave the lists, and somebody has won already. -/
theorem Coro.Ok.unlink (h : c.Ok link) (hw : c.winner ≠ .none)
    (hsub : ∀ j l, link' j l → link j l) : c.Ok link' := by
  have hopen : c.Open link → c.Open link' := fun ho =>
    ⟨ho.account, ho.queued, fun _ hn => absurd hn hw, fun hp j l hl => ho.plain hp j l (hsub j l hl),
      ho.hooked, ho.stored⟩
  refine ⟨fun j l hl => h.place j l (hsub j l hl), h.sleeps, h.past, h.future, ?_⟩
  have hnow := h.now
  generalize c.phase.kind = kind at hnow ⊢
  cases kind with
  | opening => exact ⟨hopen hnow.1, hnow.2⟩
  | revoking => exact ⟨hopen hnow.1, hnow.2⟩
  | parked => exact ⟨hopen hnow.1, hnow.2⟩
  | _ => exact hnow

/-- Cancellation was requested before the hook was armed, and wins. -/
theorem Coro.Ok.withdrawOp (h : c.Ok link) {l : Λ} (hphase : c.phase = .withdraw (.op l))
    (hlink : link 0 l) (hgone : ∀ j l', ¬ link' j l') :
    ({ c.ownCancel with hook := none } : Coro Λ).Ok link' := by
  obtain ⟨hopen, -⟩ := h.at_kind (show c.phase.kind = .revoking by rw [hphase]; rfl)
  obtain ⟨hwinner, hpc⟩ := hopen.plain (by rw [hphase]; rfl) 0 l hlink
  obtain ⟨-, hwakes, hqueued, htimers⟩ := hopen.quiet hwinner (by rw [hpc]; nofun)
  have hidle : ∀ k, c.phase.place k ≠ some .sleep := by
    intro k hk
    obtain ⟨-, l', hx, -⟩ := Phase.place_plain (by rw [hphase]; rfl) hk
    cases hx
  refine h.out rfl rfl (fun _ hn => Function.update_of_ne hn ..) (fun _ _ => rfl)
    ⟨rfl, hpc, hqueued, htimers⟩ (.inl ⟨Function.update_self .., hwakes⟩) hgone fun k => ?_
  · obtain ⟨hw, hc, -⟩ := (h.sleeps k).idle (hidle k)
    exact ⟨hw, hc⟩

theorem Coro.Ok.withdrawSelect (h : c.Ok link) {ops : List (Place Λ)}
    (hphase : c.phase = .withdraw (.select ops)) (hwinner : c.winner = .none) :
    ({ c with winner := .cancelled, hook := none, phase := .detach ops .giveUp 0 .exchange } :
      Coro Λ).Ok link := by
  obtain ⟨hopen, hverdict⟩ := h.at_kind (show c.phase.kind = .revoking by rw [hphase]; rfl)
  have hplain : c.hookPc ≠ .store := by
    intro hs
    have hp := hopen.stored hs
    rw [hphase] at hp
    cases hp
  obtain ⟨hpc, hwakes, hqueued, htimers⟩ := hopen.quiet hwinner hplain
  have hplace : ∀ j x, c.phase.place j = some x →
      (Phase.detach ops .giveUp 0 .exchange).place j = some x := by
    intro j x hj
    rw [hphase] at hj
    simpa [Phase.place, Wait.places] using hj
  refine h.step rfl (fun _ _ => rfl) (fun _ _ => rfl) (fun j l hl => hplace j _ (h.place j l hl))
    (fun k => (h.sleeps k).congr rfl rfl (hplace k _) (fun hg => ?_)) ?_
  · simp [Phase.exchanged] at hg
  · exact ⟨⟨rfl, hpc, hqueued, htimers⟩, rfl, hwakes, hverdict⟩

theorem Coro.Ok.withdrawFails (h : c.Ok link) {w : Wait Λ} (hphase : c.phase = .withdraw w)
    (hlost : c.winner = .none → c.hookPc = .idle → False) : (c.suspend w).Ok link := by
  obtain ⟨hopen, -⟩ := h.at_kind (show c.phase.kind = .revoking by rw [hphase]; rfl)
  refine h.suspend hopen (fun j x hj => ?_) (fun hw hp => absurd (hlost hw hp) id) ?_ ?_ ?_
  · rw [hphase] at hj
    exact hj
  · rintro l rfl
    rw [hphase]
    rfl
  · intro hs
    have hplain := hopen.stored hs
    rw [hphase] at hplain
    cases w with
    | op l => exact ⟨l, rfl⟩
    | select ops => cases hplain
  · intro w' hw'
    obtain hp | hp := hopen.hooked w' hw'
    · rw [hphase] at hp
      exact (Phase.withdraw.inj hp).symm
    · rw [hphase] at hp
      cases hp

theorem Coro.Ok.detaching (h : c.Ok link) {ops : List (Place Λ)} {why : Why} {k k' : Nat}
    {part part' : Part} {f : Nat → Sleeper} (hphase : c.phase = .detach ops why k part)
    (hk : k ≤ k') (hlink : ∀ j l, link' j l → link j l ∧ k' ≤ j)
    (hsleeps : ∀ j, ({ c with phase := .detach ops why k' part', sleepers := f } : Coro Λ).Sleeps j)
    (hfiring : ∀ j, (∃ n, (f j).timer = .enqueue n) ↔ ∃ n, (c.sleepers j).timer = .enqueue n) :
    ({ c with phase := .detach ops why k' part', sleepers := f } : Coro Λ).Ok link' := by
  have hkind : (Phase.detach ops why k' part').kind = c.phase.kind := by rw [hphase]; cases why <;> rfl
  have htimers : (∀ j n, (c.sleepers j).timer ≠ .enqueue n) → ∀ j n, (f j).timer ≠ .enqueue n := by
    intro hnone j n hn
    obtain ⟨m, hm⟩ := (hfiring j).mp ⟨n, hn⟩
    exact hnone j m hm
  have hopen : c.Open link →
      ({ c with phase := .detach ops why k' part', sleepers := f } : Coro Λ).Open link' := by
    intro ho
    obtain ⟨who, haccount, hwho⟩ := ho.account
    refine ⟨⟨who, haccount, fun j => (hfiring j).trans (hwho j)⟩, ho.queued, nofun, nofun, ?_, ?_⟩
    · intro w hw
      obtain hp | hp := ho.hooked w hw <;> rw [hphase] at hp <;> cases hp
    · intro hs
      have hp := ho.stored hs
      rw [hphase] at hp
      cases hp
  have hshut : c.Shut → ({ c with phase := .detach ops why k' part', sleepers := f } : Coro Λ).Shut :=
    fun hs => ⟨hs.hook, hs.hookPc, hs.queued, htimers hs.timers⟩
  refine h.step rfl (fun _ _ => rfl) (fun _ _ => rfl) (fun j l hl => ?_) hsleeps ?_
  · have hp := h.place j l (hlink j l hl).1
    simp only [hphase, Phase.place] at hp ⊢
    split at hp
    · rename_i hcond
      rw [if_pos ⟨hcond.1, (hlink j l hl).2⟩, hp]
    · cases hp
  · show Coro.At _ link' (Phase.detach ops why k' part').kind
    rw [hkind]
    have hnow := h.now
    have hphase' := hphase
    rw [hphase'] at hnow ⊢
    cases why with
    | undo => exact ⟨hopen hnow.1, hnow.2.1, hnow.2.2.1, hnow.2.2.2.1, nofun⟩
    | giveUp => exact ⟨hshut hnow.1, hnow.2⟩
    | resume | again =>
      refine ⟨hshut hnow.1, hnow.2.1, fun hw j => ?_⟩
      have hnone := hnow.2.2 hw j
      simp only [hphase, Phase.place] at hnone ⊢
      split at hnone
      · rename_i hcond
        split
        · exact hnone
        · rfl
      · rename_i hcond
        exact if_neg fun hc => hcond ⟨hc.1, Nat.le_trans hk hc.2⟩

theorem Coro.Ok.detachListed (h : c.Ok link) {ops : List (Place Λ)} {why : Why} {k : Nat}
    {part : Part} {l : Λ} (hphase : c.phase = .detach ops why k part)
    (hat : ops[k]? = some (.listed l))
    (hlink : ∀ j l', link' j l' → link j l' ∧ ¬ (j = k ∧ l' = l)) :
    ({ c with phase := .detach ops why (k + 1) .exchange } : Coro Λ).Ok link' := by
  refine h.detaching hphase (Nat.le_succ k) (fun j l' hl => ?_) (fun j => ?_) (fun _ => Iff.rfl)
  · obtain ⟨hold, hne⟩ := hlink j l' hl
    refine ⟨hold, ?_⟩
    have hp := h.place j l' hold
    simp only [hphase, Phase.place] at hp
    split at hp
    · rename_i hcond
      rcases Nat.lt_or_ge k j with hlt | hge
      · exact hlt
      · obtain rfl : j = k := by omega
        rw [hat] at hp
        exact absurd ⟨rfl, (Place.listed.inj (Option.some.inj hp)).symm⟩ hne
    · cases hp
  · refine (h.sleeps j).congr rfl rfl (fun hp => ?_) (fun hg => ?_)
    · simp only [hphase, Phase.place] at hp ⊢
      split at hp
      · rename_i hcond
        have hne : j ≠ k := by
          rintro rfl
          rw [hat] at hp
          cases hp
        rw [if_pos ⟨hcond.1, by omega⟩, hp]
      · cases hp
    · simp [Phase.exchanged] at hg

theorem Coro.Ok.detachSleep (h : c.Ok link) {ops : List (Place Λ)} {why : Why} {k k' : Nat}
    {part part' : Part} {x : Sleeper} (hphase : c.phase = .detach ops why k part)
    (hat : ops[k]? = some .sleep) (hx : x.waiter = none) (htimer : x.timer = (c.sleepers k).timer)
    (hk : k' = k ∨ k' = k + 1 ∧ (∀ n, x.timer ≠ .claim n) ∧ (∀ n, x.timer ≠ .enqueue n) ∧
      part' = .exchange) :
    ({ c.setSleeper k x with phase := .detach ops why k' part' } : Coro Λ).Ok link := by
  have hne : ∀ j, j ≠ k → k ≤ j → k' ≤ j := by
    intro j hj hle
    obtain rfl | ⟨rfl, -⟩ := hk <;> omega
  have hplace : ∀ j, j ≠ k → ∀ y, c.phase.place j = some y →
      (Phase.detach ops why k' part').place j = some y := by
    intro j hj y hp
    simp only [hphase, Phase.place] at hp ⊢
    split at hp
    · rename_i hcond
      rw [if_pos ⟨hcond.1, hne j hj hcond.2⟩, hp]
    · cases hp
  refine h.detaching hphase (by obtain rfl | ⟨rfl, -⟩ := hk <;> omega) (fun j l hl => ⟨hl, ?_⟩)
    (fun j => ?_) (fun j => ?_)
  · have hp := h.place j l hl
    simp only [hphase, Phase.place] at hp
    split at hp
    · rename_i hcond
      refine hne j ?_ hcond.2
      rintro rfl
      rw [hat] at hp
      cases hp
    · cases hp
  · by_cases hj : j = k
    · subst hj
      obtain hk | ⟨rfl, hclaim, henqueue, rfl⟩ := hk
      · have hold : c.phase.place j = (Phase.detach ops why k' part').place j := by
          rw [hphase, hk]
          rfl
        refine ⟨fun n hn => ?_, fun n hn => ?_, fun n hn => ?_, fun _ => ?_⟩
        · simp only [setSleeper_self] at hn
          rw [hx] at hn
          cases hn
        · simp only [setSleeper_self, htimer] at hn
          exact hold ▸ (h.sleeps j).claim n hn
        · simp only [setSleeper_self, htimer] at hn
          exact hold ▸ (h.sleeps j).enqueue n hn
        · simp only [setSleeper_self, hx]
      · refine .of_idle ?_ ?_ ?_ <;> simp only [setSleeper_self]
        · exact hx
        · exact hclaim
        · exact henqueue
    · refine (h.sleeps j).congr (setSleeper_of_ne hj) rfl (hplace j hj _) (fun hg => ?_)
      obtain rfl | ⟨rfl, -, -, rfl⟩ := hk
      · simp [Phase.exchanged, hj] at hg
      · simp [Phase.exchanged] at hg
  · by_cases hj : j = k
    · subst hj
      simp only [setSleeper_self, htimer]
    · simp only [setSleeper_of_ne hj]

theorem Coro.detachedNone {ops : List (Place Λ)} {why : Why} {k : Nat}
    {part : Part} (hphase : c.phase = .detach ops why k part) (hat : ops[k]? = none) (j : Nat) :
    c.phase.place j = none := by
  have hlen : ops.length ≤ k := by simpa using hat
  simp only [hphase, Phase.place]
  split
  · rename_i hcond
    simp
    omega
  · rfl

theorem Coro.Ok.detachedUndo (h : c.Ok link) {ops : List (Place Λ)} {k : Nat} {part : Part}
    (hphase : c.phase = .detach ops .undo k part) (hat : ops[k]? = none) :
    ({ c with phase := .readWinner ops } : Coro Λ).Ok link := by
  refine h.same (by rw [hphase]; rfl) rfl nofun (fun j x hj => ?_) nofun nofun (fun _ => rfl)
  rw [Coro.detachedNone hphase hat j] at hj
  cases hj

theorem Coro.Ok.detachedGiveUp (h : c.Ok link) {ops : List (Place Λ)} {k : Nat} {part : Part}
    (hphase : c.phase = .detach ops .giveUp k part) (hat : ops[k]? = none) :
    c.ownCancel.Ok link := by
  obtain ⟨hshut, -, hwakes, -⟩ := h.at_kind (show c.phase.kind = .givingUp by rw [hphase]; rfl)
  refine h.ownCancel hshut hwakes (h.unlinked (Coro.detachedNone hphase hat)) fun j => ?_
  obtain ⟨hw, hc, -⟩ := (h.sleeps j).idle (by rw [Coro.detachedNone hphase hat j]; nofun)
  exact ⟨hw, hc⟩

theorem Coro.Ok.finish (h : c.Ok link) (hkind : c.phase.kind = .leaving)
    (hplace : ∀ j, c.phase.place j = none) (hlink : ∀ j l, ¬ link' j l) : c.finish.Ok link' := by
  obtain ⟨hshut, hdone, -⟩ := h.at_kind hkind
  refine h.out rfl rfl (fun _ _ => rfl) (fun _ _ => rfl)
    ⟨hshut.hook, hshut.hookPc, hshut.queued, hshut.timers⟩ hdone hlink fun j => ?_
  obtain ⟨hw, hc, -⟩ := (h.sleeps j).idle (by rw [hplace j]; nofun)
  exact ⟨hw, hc⟩

theorem Coro.Ok.readWinner (h : c.Ok link) {ops : List (Place Λ)} (hphase : c.phase = .readWinner ops) :
    (if c.winner = .none then
      ({ c.returns false with phase := .detach ops .again 0 .exchange } : Coro Λ)
    else c.suspend (.select ops)).Ok link := by
  obtain ⟨hopen, hhook, hpc, -, -⟩ := h.at_kind (show c.phase.kind = .opening by rw [hphase]; rfl)
  have hplace : ∀ j, c.phase.place j = none := fun j => by rw [hphase]; rfl
  have hidle := fun k => (h.sleeps k).idle (by rw [hplace k]; nofun)
  split
  · rename_i hw
    obtain ⟨-, hwakes, hqueued, htimers⟩ := hopen.quiet hw (by rw [hpc]; nofun)
    refine h.step rfl (fun n hn => Function.update_of_ne hn ..) (fun _ _ => rfl)
      (fun j l hl => absurd hl (h.unlinked hplace j l))
      (fun k => .of_idle (hidle k).1 (hidle k).2.1 (hidle k).2.2) ?_
    refine ⟨⟨hhook, hpc, hqueued, htimers⟩, .inl ⟨Function.update_self .., hwakes⟩, fun _ j => ?_⟩
    simp [Phase.place]
  · rename_i hw
    refine h.suspend hopen (fun j x hj => ?_) (fun hn => absurd hn hw) nofun ?_ ?_
    · rw [hplace j] at hj
      cases hj
    · exact fun hs => absurd (hpc.symm.trans hs) nofun
    · exact fun w' hw' => absurd (hhook.symm.trans hw') nofun

theorem Coro.Ok.resume (h : c.Ok link) {w : Wait Λ} (hphase : c.phase = .suspended w)
    (hqueued : 0 < c.queued) :
    ({ c with queued := c.queued - 1, hook := none, phase := w.resume } : Coro Λ).Ok link := by
  obtain ⟨hopen, hverdict⟩ := h.at_kind (show c.phase.kind = .parked by rw [hphase]; rfl)
  obtain ⟨who, haccount, hwho⟩ := hopen.account
  obtain ⟨hone, hwinner, hpc, rfl⟩ := haccount.wakes_eq (hopen.queued ▸ hqueued)
  have hdone : c.verdict c.turn = some true ∧ c.wakes c.turn = 1 := ⟨hverdict, hone⟩
  have hzero : c.queued - 1 = 0 := by rw [hopen.queued, hone]
  have htimers : ∀ k n, (c.sleepers k).timer ≠ .enqueue n := fun k n hn => by
    cases (hwho k).mp ⟨n, hn⟩
  cases w with
  | op l =>
    have hplain : c.phase.plain = true := by rw [hphase]; rfl
    refine h.step rfl (fun _ _ => rfl) (fun _ _ => rfl) (fun j l' hl => ?_) (fun k => ?_) ?_
    · exact absurd (hopen.plain hplain j l' hl).1 hwinner
    · have hk : c.phase.place k ≠ some .sleep := by
        intro hk
        obtain ⟨-, l', hx, -⟩ := Phase.place_plain hplain hk
        cases hx
      obtain ⟨hw, hc, he⟩ := (h.sleeps k).idle hk
      exact .of_idle hw hc he
    · exact ⟨⟨rfl, hpc, hzero, htimers⟩, .inr hdone, fun _ _ => rfl⟩
  | select ops =>
    have hplace : ∀ j x, c.phase.place j = some x →
        (Phase.detach ops .resume 0 .exchange).place j = some x := by
      intro j x hj
      rw [hphase] at hj
      simpa [Phase.place, Wait.places] using hj
    refine h.step rfl (fun _ _ => rfl) (fun _ _ => rfl) (fun j l hl => hplace j _ (h.place j l hl))
      (fun k => (h.sleeps k).congr rfl rfl (hplace k _) (fun hg => ?_)) ?_
    · simp [Phase.exchanged, Wait.resume] at hg
    · exact ⟨⟨rfl, hpc, hzero, htimers⟩, .inr hdone, fun hn => absurd hn hwinner⟩

/-- Where a hook is armed or running, `await_suspend` is behind `arm_cancel`. -/
theorem Coro.Ok.hooked (h : c.Ok link) (hhook : c.hook ≠ none ∨ c.hookPc ≠ .idle) :
    c.Open link ∧ (c.phase.kind = .revoking ∨ c.phase.kind = .parked) := by
  have hnow := h.now
  generalize hkind : c.phase.kind = kind at hnow
  have hshut : c.Shut → False := fun hs => hhook.elim (fun hn => hn hs.hook) (fun hn => hn hs.hookPc)
  cases kind with
  | revoking => exact ⟨hnow.1, .inl rfl⟩
  | parked => exact ⟨hnow.1, .inr rfl⟩
  | opening => exact absurd hhook fun hn => hn.elim (fun hn => hn hnow.2.1) (fun hn => hn hnow.2.2.1)
  | _ => exact absurd hnow.1 hshut

theorem Coro.Ok.behind (h : c.Ok link) (hphase : c'.phase = c.phase) (hturn : c'.turn = c.turn)
    (hverdict : c'.verdict = c.verdict) (hwakes : ∀ n, n ≠ c.turn → c'.wakes n = c.wakes n)
    (hsleepers : c'.sleepers = c.sleepers)
    (hkind : c.phase.kind = .revoking ∨ c.phase.kind = .parked)
    (hsub : ∀ j l, link' j l → link j l) (hopen : c'.Open link') : c'.Ok link' := by
  refine h.step hturn (fun n _ => by rw [hverdict]) hwakes (fun j l hl => ?_) (fun k => ?_) ?_
  · rw [hphase]
    exact h.place j l (hsub j l hl)
  · exact (h.sleeps k).congr (by rw [hsleepers]) hturn (fun hp => by rw [hphase, hp])
      (fun hg => (h.sleeps k).gone (by rw [← hphase, hg]))
  · have hnow := h.now
    rw [hphase]
    obtain hk | hk := hkind <;> rw [hk] at hnow ⊢
    · exact ⟨hopen, by rw [hverdict, hturn]; exact hnow.2⟩
    · exact ⟨hopen, by rw [hverdict, hturn]; exact hnow.2⟩

theorem Coro.Ok.onCancelOp (h : c.Ok link) {l : Λ} (hhook : c.hook = some (.op l))
    (hlink : link 0 l) (hgone : ∀ j l', ¬ link' j l') :
    ({ c with hook := none, hookPc := .store } : Coro Λ).Ok link' := by
  obtain ⟨hopen, hkind⟩ := h.hooked (.inl (by rw [hhook]; nofun))
  have hplain : c.phase.plain = true := by
    obtain hp | hp := hopen.hooked _ hhook <;> rw [hp] <;> rfl
  obtain ⟨hwinner, hpc⟩ := hopen.plain hplain 0 l hlink
  obtain ⟨-, hwakes, -, htimers⟩ := hopen.quiet hwinner (by rw [hpc]; nofun)
  refine h.behind rfl rfl rfl (fun _ _ => rfl) rfl hkind (fun j l' hl => absurd hl (hgone j l')) ?_
  refine ⟨⟨none, ?_, fun k => iff_of_false (fun ⟨n, hn⟩ => htimers k n hn) nofun⟩, hopen.queued,
    fun _ _ => nofun, fun _ j l' hl => absurd hl (hgone j l'), nofun, fun _ => hplain⟩
  simp only [hwinner, hwakes]
  exact .removed

theorem Coro.Ok.onCancelSelect (h : c.Ok link) {ops : List (Place Λ)}
    (hhook : c.hook = some (.select ops)) (hwinner : c.winner = .none) :
    ({ c with hook := none, winner := .cancelled, hookPc := .enqueue } : Coro Λ).Ok link := by
  obtain ⟨hopen, hkind⟩ := h.hooked (.inl (by rw [hhook]; nofun))
  have hplain : c.phase.plain = false := by
    obtain hp | hp := hopen.hooked _ hhook <;> rw [hp] <;> rfl
  obtain ⟨-, hwakes, -, htimers⟩ := hopen.quiet hwinner fun hs => by
    rw [hopen.stored hs] at hplain
    cases hplain
  refine h.behind rfl rfl rfl (fun _ _ => rfl) rfl hkind (fun _ _ => id) ?_
  refine ⟨⟨none, ?_, fun k => iff_of_false (fun ⟨n, hn⟩ => htimers k n hn) nofun⟩, hopen.queued,
    fun _ => nofun, fun hp => absurd (hplain.symm.trans hp) nofun, nofun, nofun⟩
  simp only [hwakes]
  exact .cancelling

theorem Coro.Ok.onCancelLate (h : c.Ok link) (hhook : c.hook ≠ none) :
    ({ c with hook := none } : Coro Λ).Ok link := by
  obtain ⟨hopen, hkind⟩ := h.hooked (.inl hhook)
  exact h.behind rfl rfl rfl (fun _ _ => rfl) rfl hkind (fun _ _ => id)
    ⟨hopen.account, hopen.queued, hopen.linked, hopen.plain, nofun, hopen.stored⟩

theorem Coro.Ok.storeOwn (h : c.Ok link) (hpc : c.hookPc = .store) :
    ({ c with winner := .cancelled, hookPc := .enqueue } : Coro Λ).Ok link := by
  obtain ⟨hopen, hkind⟩ := h.hooked (.inr (by rw [hpc]; nofun))
  obtain ⟨who, haccount, hwho⟩ := hopen.account
  rw [hpc] at haccount
  refine h.behind rfl rfl rfl (fun _ _ => rfl) rfl hkind (fun _ _ => id)
    ⟨⟨who, ?_, hwho⟩, hopen.queued, fun _ => nofun, fun hp j l hl => ?_, hopen.hooked, nofun⟩
  · generalize c.wakes c.turn = n at haccount
    generalize c.winner = x at haccount
    cases haccount
    exact .cancelling
  · have hidle := (hopen.plain hp j l hl).2
    rw [hpc] at hidle
    cases hidle

theorem Coro.Ok.enqueueSelf (h : c.Ok link) (hpc : c.hookPc = .enqueue) :
    ({ c.enqueue c.turn with hookPc := .idle } : Coro Λ).Ok link := by
  obtain ⟨hopen, hkind⟩ := h.hooked (.inr (by rw [hpc]; nofun))
  obtain ⟨who, haccount, hwho⟩ := hopen.account
  rw [hpc] at haccount
  have hcase : c.winner = .cancelled ∧ who = none ∧ c.wakes c.turn = 0 := by
    generalize c.wakes c.turn = n at haccount ⊢
    generalize c.winner = x at haccount ⊢
    cases haccount
    exact ⟨rfl, rfl, rfl⟩
  obtain ⟨hwinner, rfl, hwakes⟩ := hcase
  refine h.behind rfl rfl rfl (fun n hn => Function.update_of_ne hn ..) rfl hkind (fun _ _ => id)
    ⟨⟨none, ?_, hwho⟩, ?_, ?_, fun hp j l hl => ?_, hopen.hooked, nofun⟩
  · simp only [Coro.enqueue, Function.update_self, hwakes, hwinner]
    exact .kicked
  · simp only [Coro.enqueue, Function.update_self, hopen.queued]
  · exact fun _ hn => absurd (hwinner.symm.trans hn) nofun
  · have hidle := (hopen.plain hp j l hl).2
    rw [hpc] at hidle
    cases hidle

/-- Nobody has won a suspension in which an operation is attached: the wakers may find
it. -/
theorem Coro.Ok.opened (h : c.Ok link) {k : Nat} {x : Place Λ} (hplace : c.phase.place k = some x)
    (hw : c.winner = .none) : c.Open link ∧
      (c.phase.kind = .opening ∨ c.phase.kind = .revoking ∨ c.phase.kind = .parked) := by
  have hnow := h.now
  match hkind : c.phase.kind with
  | .opening => rw [hkind] at hnow; exact ⟨hnow.1, .inl rfl⟩
  | .revoking => rw [hkind] at hnow; exact ⟨hnow.1, .inr (.inl rfl)⟩
  | .parked => rw [hkind] at hnow; exact ⟨hnow.1, .inr (.inr rfl)⟩
  | .givingUp =>
    rw [hkind] at hnow
    exact absurd (hnow.2.1.symm.trans hw) nofun
  | .leaving =>
    rw [hkind] at hnow
    rw [hnow.2.2 hw k] at hplace
    cases hplace
  | .out | .fresh =>
    match hp : c.phase with
    | .running | .check _ =>
      rw [hp] at hplace
      cases hplace
    | .detach _ why _ _ =>
      rw [hp] at hkind
      cases why <;> cases hkind
    | .attach _ _ | .startTimer _ _ | .look _ _ | .undo _ | .arm _ | .withdraw _ | .readWinner _
    | .suspended _ | .resumed _ =>
      rw [hp] at hkind
      cases hkind

/-- A waker or a timer wins a suspension. -/
theorem Coro.Ok.won (h : c.Ok link) (hphase : c'.phase = c.phase) (hturn : c'.turn = c.turn)
    (hverdict : c'.verdict = c.verdict) (hhook : c'.hook = c.hook) (hpc : c'.hookPc = c.hookPc)
    (hwakes : ∀ n, n ≠ c.turn → c'.wakes n = c.wakes n)
    (hkind : c.phase.kind = .opening ∨ c.phase.kind = .revoking ∨ c.phase.kind = .parked)
    (hfirst : ∀ w, c.phase ≠ .attach w 0) (hsub : ∀ j l, link' j l → link j l)
    (hsleeps : ∀ k, c'.Sleeps k) (hopen : c'.Open link') : c'.Ok link' := by
  refine h.step hturn (fun n _ => by rw [hverdict]) hwakes (fun j l hl => ?_) hsleeps ?_
  · rw [hphase]
    exact h.place j l (hsub j l hl)
  · have hnow := h.now
    rw [hphase]
    obtain hk | hk | hk := hkind <;> rw [hk] at hnow ⊢
    · refine ⟨hopen, by rw [hhook]; exact hnow.2.1, by rw [hpc]; exact hnow.2.2.1,
        by rw [hverdict, hturn]; exact hnow.2.2.2.1, fun w hw => ?_⟩
      rw [hphase] at hw
      exact absurd hw (hfirst w)
    · exact ⟨hopen, by rw [hverdict, hturn]; exact hnow.2⟩
    · exact ⟨hopen, by rw [hverdict, hturn]; exact hnow.2⟩

theorem Coro.Ok.fire (h : c.Ok link) {k : Nat} {l : Λ} (hlink : link k l) (hw : c.winner = .none)
    (hsub : ∀ j l', link' j l' → link j l' ∧ ¬ (j = k ∧ l' = l)) :
    ({ c.enqueue c.turn with winner := .index k } : Coro Λ).Ok link' := by
  have hplace := h.place k l hlink
  obtain ⟨hopen, hkind⟩ := h.opened hplace hw
  have hstore : c.hookPc ≠ .store := by
    intro hs
    have hidle := (hopen.plain (hopen.stored hs) k l hlink).2
    rw [hs] at hidle
    cases hidle
  obtain ⟨hpc, hwakes, -, htimers⟩ := hopen.quiet hw hstore
  refine h.won rfl rfl rfl rfl rfl (fun n hn => Function.update_of_ne hn ..) hkind (fun w hp => ?_)
    (fun j l' hl => (hsub j l' hl).1) (fun j => ?_) ?_
  · rw [hp] at hplace
    simp [Phase.place] at hplace
  · exact (h.sleeps j).congr rfl rfl id (h.sleeps j).gone
  · refine ⟨⟨none, ?_, fun j => iff_of_false (fun ⟨n, hn⟩ => htimers j n hn) nofun⟩, ?_,
      fun _ => nofun, fun hp j l' hl => ?_, hopen.hooked, hopen.stored⟩
    · simp only [Coro.enqueue, Function.update_self, hwakes, hpc]
      exact .fired k
    · simp only [Coro.enqueue, Function.update_self, hopen.queued]
    · obtain ⟨hold, hne⟩ := hsub j l' hl
      obtain ⟨rfl, l₁, hx, hone⟩ := Phase.place_plain hp (h.place j l' hold)
      obtain ⟨rfl, l₂, hy, htwo⟩ := Phase.place_plain hp hplace
      cases hx
      cases hy
      rw [hone] at htwo
      cases htwo
      exact absurd ⟨rfl, rfl⟩ hne

/-- A step of a timer that does not touch a run queue and does not win. -/
theorem Coro.Ok.timer (h : c.Ok link) {k : Nat} {x : Sleeper}
    (hold : ∀ n, (c.sleepers k).timer ≠ .enqueue n) (hnew : ∀ n, x.timer ≠ .enqueue n)
    (hsleeps : (c.setSleeper k x).Sleeps k) : (c.setSleeper k x).Ok link := by
  have hfiring : ∀ j, (∃ n, ((c.setSleeper k x).sleepers j).timer = .enqueue n) ↔
      ∃ n, (c.sleepers j).timer = .enqueue n := by
    intro j
    by_cases hj : j = k
    · subst hj
      rw [setSleeper_self]
      exact iff_of_false (fun ⟨n, hn⟩ => hnew n hn) (fun ⟨n, hn⟩ => hold n hn)
    · rw [setSleeper_of_ne hj]
  have hopen : c.Open link → (c.setSleeper k x).Open link := by
    intro ho
    obtain ⟨who, haccount, hwho⟩ := ho.account
    exact ⟨⟨who, haccount, fun j => (hfiring j).trans (hwho j)⟩, ho.queued, ho.linked, ho.plain,
      ho.hooked, ho.stored⟩
  have hshut : c.Shut → (c.setSleeper k x).Shut := by
    intro hs
    refine ⟨hs.hook, hs.hookPc, hs.queued, fun j n hn => ?_⟩
    obtain ⟨m, hm⟩ := (hfiring j).mp ⟨n, hn⟩
    exact hs.timers j m hm
  refine h.step rfl (fun _ _ => rfl) (fun _ _ => rfl) h.place (fun j => ?_) ?_
  · by_cases hj : j = k
    · exact hj ▸ hsleeps
    · exact (h.sleeps j).congr (setSleeper_of_ne hj) rfl id (h.sleeps j).gone
  · have hnow := h.now
    show Coro.At _ link c.phase.kind
    generalize c.phase.kind = kind at hnow ⊢
    cases kind with
    | out => exact ⟨hshut hnow.1, hnow.2⟩
    | fresh => exact ⟨hshut hnow.1, hnow.2⟩
    | opening => exact ⟨hopen hnow.1, hnow.2⟩
    | revoking => exact ⟨hopen hnow.1, hnow.2⟩
    | parked => exact ⟨hopen hnow.1, hnow.2⟩
    | givingUp => exact ⟨hshut hnow.1, hnow.2⟩
    | leaving => exact ⟨hshut hnow.1, hnow.2⟩

theorem Coro.Ok.timerWins (h : c.Ok link) {k n : Nat} (htimer : (c.sleepers k).timer = .claim n)
    (hw : c.winner = .none) :
    ({ c.setTimer k (.enqueue n) with winner := .index k } : Coro Λ).Ok link := by
  obtain ⟨hturn, hplace⟩ := (h.sleeps k).claim n htimer
  obtain ⟨hopen, hkind⟩ := h.opened hplace hw
  have hplain : c.phase.plain = false := by
    by_contra hp
    obtain ⟨-, l, hx, -⟩ := Phase.place_plain (by simpa using hp) hplace
    cases hx
  obtain ⟨hpc, hwakes, -, htimers⟩ := hopen.quiet hw fun hs => by
    rw [hopen.stored hs] at hplain
    cases hplain
  have hwaiter : (c.sleepers k).waiter = none := by
    cases hwait : (c.sleepers k).waiter with
    | none => rfl
    | some m => exact absurd htimer (((h.sleeps k).waiter m hwait).2.2 n).1
  refine h.won rfl rfl rfl rfl rfl (fun _ _ => rfl) hkind (fun w hp => ?_) (fun _ _ => id)
    (fun j => ?_) ?_
  · rw [hp] at hplace
    simp [Phase.place] at hplace
  · by_cases hj : j = k
    · subst hj
      refine ⟨fun m hm => ?_, fun m hm => ?_, fun m hm => ?_, fun _ => ?_⟩
      · simp only [Coro.setTimer, setSleeper_self, hwaiter] at hm
        cases hm
      · simp only [Coro.setTimer, setSleeper_self] at hm
        cases hm
      · simp only [Coro.setTimer, setSleeper_self] at hm
        cases hm
        exact ⟨hturn, hplace⟩
      · simp only [Coro.setTimer, setSleeper_self, hwaiter]
    · exact (h.sleeps j).congr (setSleeper_of_ne hj) rfl id (h.sleeps j).gone
  · refine ⟨⟨some k, ?_, fun j => ?_⟩, hopen.queued, fun _ => nofun,
      fun hp => absurd (hplain.symm.trans hp) nofun, hopen.hooked, hopen.stored⟩
    · show Account (.index k) c.hookPc (some k) (c.wakes c.turn)
      rw [hwakes, hpc]
      exact .firing k
    · by_cases hj : j = k
      · subst hj
        simp only [Coro.setTimer, setSleeper_self]
        exact iff_of_true ⟨n, rfl⟩ trivial
      · simp only [Coro.setTimer, setSleeper_of_ne hj]
        exact iff_of_false (fun ⟨m, hm⟩ => htimers j m hm) fun hk => hj (Option.some.inj hk).symm

/-- `on_fire` puts the handle into a run queue. -/
theorem Coro.Ok.timerEnqueues (h : c.Ok link) {k n : Nat}
    (htimer : (c.sleepers k).timer = .enqueue n) : ((c.setTimer k .last).enqueue n).Ok link := by
  obtain ⟨rfl, hplace⟩ := (h.sleeps k).enqueue n htimer
  have hopen : c.Open link ∧
      (c.phase.kind = .opening ∨ c.phase.kind = .revoking ∨ c.phase.kind = .parked) := by
    have hnow := h.now
    generalize c.phase.kind = kind at hnow ⊢
    cases kind with
    | opening => exact ⟨hnow.1, .inl rfl⟩
    | revoking => exact ⟨hnow.1, .inr (.inl rfl)⟩
    | parked => exact ⟨hnow.1, .inr (.inr rfl)⟩
    | _ => exact absurd htimer (hnow.1.timers k _)
  obtain ⟨hopen, hkind⟩ := hopen
  obtain ⟨who, haccount, hwho⟩ := hopen.account
  obtain rfl := (hwho k).mp ⟨_, htimer⟩
  have hcase : c.winner = .index k ∧ c.hookPc = .idle ∧ c.wakes c.turn = 0 := by
    generalize c.wakes c.turn = m at haccount ⊢
    generalize c.winner = x at haccount ⊢
    generalize c.hookPc = pc at haccount ⊢
    cases haccount
    exact ⟨rfl, rfl, rfl⟩
  obtain ⟨hwinner, hpc, hwakes⟩ := hcase
  have hwaiter : (c.sleepers k).waiter = none := by
    cases hwait : (c.sleepers k).waiter with
    | none => rfl
    | some m => exact absurd htimer (((h.sleeps k).waiter m hwait).2.2 _).2
  refine h.won rfl rfl rfl rfl rfl (fun m hm => Function.update_of_ne hm ..) hkind (fun w hp => ?_)
    (fun _ _ => id) (fun j => ?_) ?_
  · rw [hp] at hplace
    simp [Phase.place] at hplace
  · by_cases hj : j = k
    · subst hj
      refine .of_idle ?_ (fun m hm => ?_) (fun m hm => ?_)
      · simp only [Coro.enqueue, Coro.setTimer, setSleeper_self, hwaiter]
      · simp only [Coro.enqueue, Coro.setTimer, setSleeper_self] at hm
        cases hm
      · simp only [Coro.enqueue, Coro.setTimer, setSleeper_self] at hm
        cases hm
    · exact (h.sleeps j).congr (setSleeper_of_ne hj) rfl id (h.sleeps j).gone
  · refine ⟨⟨none, ?_, fun j => iff_of_false (fun ⟨m, hm⟩ => ?_) nofun⟩, ?_,
      fun _ hn => absurd (hwinner.symm.trans hn) nofun, fun hp => ?_, hopen.hooked, hopen.stored⟩
    · show Account c.winner c.hookPc none (Function.update c.wakes c.turn (c.wakes c.turn + 1) c.turn)
      rw [Function.update_self, hwakes, hpc, hwinner]
      exact .fired k
    · by_cases hj : j = k
      · subst hj
        simp only [Coro.enqueue, Coro.setTimer, setSleeper_self] at hm
        cases hm
      · simp only [Coro.enqueue, Coro.setTimer, setSleeper_of_ne hj] at hm
        exact hj (Option.some.inj ((hwho j).mp ⟨m, hm⟩)).symm
    · show c.queued + 1 = Function.update c.wakes c.turn (c.wakes c.turn + 1) c.turn
      rw [Function.update_self, hopen.queued]
    · obtain ⟨-, l, hx, -⟩ := Phase.place_plain hp hplace
      cases hx

theorem Coro.Ok.timerMoves (h : c.Ok link) {k : Nat} {timer : TimerPc}
    (hold : ∀ n, (c.sleepers k).timer ≠ .enqueue n)
    (hnew : ∀ n, timer ≠ .claim n ∧ timer ≠ .enqueue n) : (c.setTimer k timer).Ok link := by
  refine h.timer hold (fun n => (hnew n).2) ⟨fun n hn => ?_, fun n hn => ?_, fun n hn => ?_, fun hg => ?_⟩
  · simp only [Coro.setSleeper, Function.update_self] at hn ⊢
    obtain ⟨hturn, hplace, -⟩ := (h.sleeps k).waiter n hn
    exact ⟨hturn, hplace, hnew⟩
  · rw [setSleeper_self] at hn
    exact absurd hn (hnew n).1
  · rw [setSleeper_self] at hn
    exact absurd hn (hnew n).2
  · rw [setSleeper_self]
    exact (h.sleeps k).gone hg

theorem Coro.Ok.timerTakes (h : c.Ok link) {k n : Nat} (htimer : (c.sleepers k).timer = .exchange)
    (hwaiter : (c.sleepers k).waiter = some n) : (c.setSleeper k ⟨.claim n, none⟩).Ok link := by
  obtain ⟨hturn, hplace, -⟩ := (h.sleeps k).waiter n hwaiter
  refine h.timer (by rw [htimer]; nofun) nofun ⟨fun m hm => ?_, fun m hm => ?_, fun m hm => ?_, fun _ => ?_⟩
  · rw [setSleeper_self] at hm
    cases hm
  · rw [setSleeper_self] at hm
    cases hm
    exact ⟨hturn, hplace⟩
  · rw [setSleeper_self] at hm
    cases hm
  · rw [setSleeper_self]

end Coroutine

end Uvent.Sync.Suspension
