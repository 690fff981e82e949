import Uvent.Lib.LabelledRuns
import Mathlib.Data.List.Basic
import Mathlib.Logic.Function.Basic

/-!
# Hang-ups and the coroutines that are parked on a socket

One worker with its `EPoller`, the sockets it owns and the coroutines that read, write and
wait on them.  Where the poller gets `EPOLLHUP`, `EPOLLRDHUP` or `EPOLLERR` it closes the
descriptor; the words of the header it fires only for `EPOLLIN` and `EPOLLOUT`.

The worker polls, runs timeout callbacks and cancel hooks, or lets one coroutine run up to
where it suspends.  The module says in which runs nobody is left parked on a header that
the poller has closed.
-/

namespace Uvent.Net.HangUp

open Uvent.Lib

inductive Direction where
  | read
  | write
  deriving DecidableEq, Repr

/-- A wake-up word: 0, `READY` or the address of a parked coroutine. -/
inductive Word where
  | idle
  | ready
  | parked (c : Nat)
  deriving DecidableEq, Repr

def Word.handle : Word → Option Nat
  | .parked c => some c
  | .idle | .ready => none

structure Mask where
  epollin : Bool
  epollout : Bool
  epollhup : Bool
  epollrdhup : Bool
  epollerr : Bool
  deriving DecidableEq, Repr

/-- `open_` is false when `fd` is `-1`, and `disconnected` is the bit that `poll` sets. -/
structure Header where
  tcp : Bool
  passive : Bool
  open_ : Bool
  disconnected : Bool
  rd : Word
  wr : Word
  deriving DecidableEq, Repr

namespace Header

def word (x : Header) : Direction → Word
  | .read => x.rd
  | .write => x.wr

def setWord (x : Header) (d : Direction) (w : Word) : Header :=
  match d with
  | .read => { x with rd := w }
  | .write => { x with wr := w }

def hangsUp (x : Header) (m : Mask) : Bool :=
  !(x.tcp && x.passive) && (m.epollhup || m.epollrdhup || m.epollerr)

/-- `poll` has closed the descriptor on a hang-up or an error. -/
def Hung (x : Header) : Prop := x.disconnected = true ∧ x.open_ = false

@[simp] theorem word_setWord (x : Header) (d : Direction) (w : Word) : (x.setWord d w).word d = w := by
  cases d <;> rfl

theorem word_setWord_of_ne (x : Header) {d e : Direction} (w : Word) (h : e ≠ d) :
    (x.setWord d w).word e = x.word e := by
  cases d <;> cases e <;> first | rfl | exact absurd rfl h

@[simp] theorem open_setWord (x : Header) (d : Direction) (w : Word) :
    (x.setWord d w).open_ = x.open_ := by
  cases d <;> rfl

@[simp] theorem disconnected_setWord (x : Header) (d : Direction) (w : Word) :
    (x.setWord d w).disconnected = x.disconnected := by
  cases d <;> rfl

end Header

/-- Where a coroutine is.  `looping` is at the top of the loop of a read or a write and
`suspending` in `suspend_on`; with `again` the call goes back to its loop behind the
suspension, without it the coroutine has only waited for the socket, as `async_sendfile`
does at first. -/
inductive Pc where
  | away
  | looping (d : Direction) (h : Nat)
  | suspending (d : Direction) (h : Nat) (again : Bool)
  | asleep (d : Direction) (h : Nat) (again : Bool)
  deriving DecidableEq, Repr

/-- `running` is the coroutine the worker runs, and `queue` its run queue. -/
structure State where
  headers : Nat → Header
  pcs : Nat → Pc
  requested : Nat → Bool
  queue : List Nat
  running : Option Nat

namespace State

def setHeader (s : State) (h : Nat) (x : Header) : State :=
  { s with headers := Function.update s.headers h x }

def setPc (s : State) (c : Nat) (pc : Pc) : State := { s with pcs := Function.update s.pcs c pc }

def resumeWaiter (s : State) (c : Option Nat) : State := { s with queue := s.queue ++ c.toList }

/-- `fire_read` or `fire_write`, and `resume_waiter`. -/
def fire (s : State) (h : Nat) (d : Direction) : State :=
  (s.setHeader h ((s.headers h).setWord d .ready)).resumeWaiter ((s.headers h).word d).handle

/-- `take_read_waiter` or `take_write_waiter`, and `resume_waiter`. -/
def take (s : State) (h : Nat) (d : Direction) : State :=
  (s.setHeader h ((s.headers h).setWord d .idle)).resumeWaiter ((s.headers h).word d).handle

def removeEvent (s : State) (h : Nat) : State :=
  s.setHeader h { s.headers h with open_ := false }

def markDisconnected (s : State) (h : Nat) : State :=
  s.setHeader h { s.headers h with disconnected := true }

/-- What `poll` does with one event. -/
def event (s : State) (h : Nat) (m : Mask) : State :=
  let hup := (s.headers h).hangsUp m
  let s := if hup then s.markDisconnected h else s
  let s := if m.epollin then s.fire h .read else s
  let s := if m.epollout then s.fire h .write else s
  if hup then s.removeEvent h else s

def timeout (s : State) (h : Nat) : State := ((s.take h .read).take h .write).removeEvent h

def onCancel (s : State) (c : Nat) (d : Direction) (h : Nat) : State :=
  if (s.headers h).word d = .parked c then
    (s.setHeader h ((s.headers h).setWord d .idle)).resumeWaiter (some c)
  else s

def resume (s : State) (c : Nat) (h : Nat) (d : Direction) (again : Bool) : State :=
  { s with queue := s.queue.erase c, running := some c }.setPc c
    (if again && !s.requested c then .looping d h else .away)

def disarm (s : State) (h : Nat) (d : Direction) : State :=
  if (s.headers h).word d = .ready then s.setHeader h ((s.headers h).setWord d .idle) else s

/-- The probe finds the descriptor closed, or what it wants, or fails; or it finds nothing
yet. -/
def probe (s : State) (c : Nat) (d : Direction) (h : Nat) (blocked : Bool) : State :=
  (s.disarm h d).setPc c (if (s.headers h).open_ && blocked then .suspending d h true else .away)

def park (s : State) (c : Nat) (d : Direction) (h : Nat) (again : Bool) : State :=
  let s' := { s with running := none }.setPc c (.asleep d h again)
  if s.requested c then s'.resumeWaiter (some c)
  else
    match (s.headers h).word d with
    | .ready => (s'.setHeader h ((s.headers h).setWord d .idle)).resumeWaiter (some c)
    | .idle => s'.setHeader h ((s.headers h).setWord d (.parked c))
    | .parked _ => s'

end State

/-- What the worker does, with the actions of a running coroutine.  `schedule` and
`leave` are the rest of the program. -/
inductive Action where
  | event (h : Nat) (m : Mask)
  | timeout (h : Nat)
  | request (c : Nat)
  | onCancel (c : Nat) (d : Direction) (h : Nat)
  | resume (c : Nat)
  | schedule (c : Nat)
  | leave (c : Nat)
  | call (c : Nat) (d : Direction) (h : Nat)
  | wait (c : Nat) (d : Direction) (h : Nat)
  | probe (c : Nat) (blocked : Bool)
  | remove (c h : Nat)
  | park (c : Nat)

inductive Step (s : State) : Action → State → Prop where
  | event (h : Nat) (m : Mask) (hrun : s.running = none) : Step s (.event h m) (s.event h m)
  | timeout (h : Nat) (hrun : s.running = none) : Step s (.timeout h) (s.timeout h)
  | request (c : Nat) :
      Step s (.request c) { s with requested := Function.update s.requested c true }
  | onCancel (c : Nat) (d : Direction) (h : Nat) (again : Bool)
      (hpc : s.pcs c = .asleep d h again) : Step s (.onCancel c d h) (s.onCancel c d h)
  | resume (c : Nat) (d : Direction) (h : Nat) (again : Bool) (hrun : s.running = none)
      (hqueue : c ∈ s.queue) (hpc : s.pcs c = .asleep d h again) :
      Step s (.resume c) (s.resume c h d again)
  | schedule (c : Nat) (hrun : s.running = none) (hpc : s.pcs c = .away) :
      Step s (.schedule c) { s with running := some c }
  | leave (c : Nat) (hrun : s.running = some c) (hpc : s.pcs c = .away) :
      Step s (.leave c) { s with running := none }
  | call (c : Nat) (d : Direction) (h : Nat) (hrun : s.running = some c) (hpc : s.pcs c = .away) :
      Step s (.call c d h) (s.setPc c (.looping d h))
  | wait (c : Nat) (d : Direction) (h : Nat) (hrun : s.running = some c) (hpc : s.pcs c = .away) :
      Step s (.wait c d h) (s.setPc c (.suspending d h false))
  | probe (c : Nat) (d : Direction) (h : Nat) (blocked : Bool) (hrun : s.running = some c)
      (hpc : s.pcs c = .looping d h) : Step s (.probe c blocked) (s.probe c d h blocked)
  | remove (c h : Nat) (hrun : s.running = some c) (hpc : s.pcs c = .away) :
      Step s (.remove c h) (s.removeEvent h)
  | park (c : Nat) (d : Direction) (h : Nat) (again : Bool) (hrun : s.running = some c)
      (hpc : s.pcs c = .suspending d h again) : Step s (.park c) (s.park c d h again)

structure State.New (s : State) : Prop where
  words : ∀ h d, (s.headers h).word d = .idle
  connected : ∀ h, (s.headers h).disconnected = false
  pcs : ∀ c, s.pcs c = .away
  queue : s.queue = []
  running : s.running = none

abbrev Runs (ok : State → Action → Prop) : State → Prop := LabelledRuns State.New Step ok

def State.Quiet (s : State) : Prop := s.running = none ∧ s.queue = []

/-- In a quiet state no coroutine sleeps on a header that `poll` has closed, and none is
in its words. -/
def State.Right (s : State) : Prop :=
  s.Quiet → ∀ h, (s.headers h).Hung → ∀ d c,
    (∀ again, s.pcs c ≠ .asleep d h again) ∧ (s.headers h).word d ≠ .parked c

def AnyAction (_ : State) (_ : Action) : Prop := True

/-- A hang-up comes with `EPOLLIN` where a coroutine is parked on the read word, and with
`EPOLLOUT` where one is on the write word; a coroutine parks only where no other is parked,
and one that has not probed the socket not on a closed header whose word holds no hint. -/
def Careful (s : State) : Action → Prop
  | .event h m => (s.headers h).hangsUp m = true →
      ((s.headers h).rd.handle ≠ none → m.epollin = true) ∧
        ((s.headers h).wr.handle ≠ none → m.epollout = true)
  | .park c => s.requested c = false → ∀ d h again, s.pcs c = .suspending d h again →
      (s.headers h).word d = .ready ∨
        (s.headers h).word d = .idle ∧ (again = false → ¬(s.headers h).Hung)
  | _ => True

/-! ## What holds of the words -/

/-- Who sleeps is in the run queue or in the word it sleeps on, and no word of a header
that `poll` has closed has anybody. -/
structure Inv (s : State) : Prop where
  nodup : s.queue.Nodup
  queued : ∀ c ∈ s.queue, ∃ d h again, s.pcs c = .asleep d h again
  parked : ∀ h d c, (s.headers h).word d = .parked c →
    (∃ again, s.pcs c = .asleep d h again) ∧ c ∉ s.queue
  asleep : ∀ c d h again, s.pcs c = .asleep d h again →
    c ∈ s.queue ∨ (s.headers h).word d = .parked c
  closed : ∀ h, (s.headers h).disconnected = true → (s.headers h).open_ = false
  hung : ∀ h, (s.headers h).disconnected = true → ∀ d c, (s.headers h).word d ≠ .parked c

theorem inv_new {s : State} (hnew : s.New) : Inv s where
  nodup := by
    rw [hnew.queue]
    exact List.nodup_nil
  queued := by
    rw [hnew.queue]
    exact fun c hc => absurd hc List.not_mem_nil
  parked := by
    intro h d c hword
    rw [hnew.words] at hword
    exact absurd hword nofun
  asleep := by
    intro c d h again hpc
    rw [hnew.pcs] at hpc
    exact absurd hpc nofun
  closed := by
    intro h hdis
    rw [hnew.connected] at hdis
    exact absurd hdis nofun
  hung := by
    intro h hdis
    rw [hnew.connected] at hdis
    exact absurd hdis nofun

section Steps

variable {s s' : State} {h c : Nat} {d : Direction}

theorem headers_setHeader (s : State) (h k : Nat) (x : Header) :
    (s.setHeader h x).headers k = if k = h then x else s.headers k :=
  Function.update_apply s.headers h x k

/-- A word is overwritten with a value that is no handle, and the handle that was there
goes into the run queue. -/
def State.release (s : State) (h : Nat) (d : Direction) (w : Word) : State :=
  (s.setHeader h ((s.headers h).setWord d w)).resumeWaiter ((s.headers h).word d).handle

theorem word_release {k : Nat} {e : Direction} {w : Word} :
    ((s.release h d w).headers k).word e =
      if k = h ∧ e = d then w else (s.headers k).word e := by
  change ((s.setHeader h ((s.headers h).setWord d w)).headers k).word e = _
  rw [headers_setHeader]
  by_cases hk : k = h
  · rw [if_pos hk, hk]
    by_cases he : e = d
    · rw [if_pos ⟨rfl, he⟩, he, Header.word_setWord]
    · rw [if_neg (fun hand => he hand.2), Header.word_setWord_of_ne _ _ he]
  · rw [if_neg hk, if_neg (fun hand => hk hand.1)]

theorem disconnected_release {k : Nat} {w : Word} :
    ((s.release h d w).headers k).disconnected = (s.headers k).disconnected := by
  change ((s.setHeader h ((s.headers h).setWord d w)).headers k).disconnected = _
  rw [headers_setHeader]
  split
  case isTrue hk => rw [hk, Header.disconnected_setWord]
  case isFalse => rfl

theorem open_release {k : Nat} {w : Word} :
    ((s.release h d w).headers k).open_ = (s.headers k).open_ := by
  change ((s.setHeader h ((s.headers h).setWord d w)).headers k).open_ = _
  rw [headers_setHeader]
  split
  case isTrue hk => rw [hk, Header.open_setWord]
  case isFalse => rfl

theorem Inv.release (hinv : Inv s) (h : Nat) (d : Direction) {w : Word} (hw : ∀ c, w ≠ .parked c) :
    Inv (s.release h d w) := by
  have hhandle : ∀ c, c ∈ ((s.headers h).word d).handle.toList ↔ (s.headers h).word d = .parked c := by
    intro c
    cases (s.headers h).word d with
    | idle => exact ⟨fun hc => absurd hc List.not_mem_nil, nofun⟩
    | ready => exact ⟨fun hc => absurd hc List.not_mem_nil, nofun⟩
    | parked c' =>
        rw [Word.handle, Option.toList_some, List.mem_singleton, Word.parked.injEq]
        exact eq_comm
  have hqueue : (s.release h d w).queue = s.queue ++ ((s.headers h).word d).handle.toList := rfl
  exact {
    nodup := by
      rw [hqueue, List.nodup_append]
      refine ⟨hinv.nodup, ?_, ?_⟩
      · cases ((s.headers h).word d).handle <;> simp
      · intro a ha b hb heq
        rw [hhandle] at hb
        exact (hinv.parked h d b hb).2 (heq ▸ ha)
    queued := by
      intro c hc
      rw [hqueue, List.mem_append, hhandle] at hc
      obtain hc | hc := hc
      · exact hinv.queued c hc
      · obtain ⟨⟨again, hpc⟩, -⟩ := hinv.parked h d c hc
        exact ⟨d, h, again, hpc⟩
    parked := by
      intro k e c hc
      rw [word_release] at hc
      split at hc
      case isTrue => exact absurd hc (hw c)
      case isFalse hne =>
        obtain ⟨⟨again, hpc⟩, hout⟩ := hinv.parked k e c hc
        refine ⟨⟨again, hpc⟩, ?_⟩
        rw [hqueue, List.mem_append, hhandle, not_or]
        refine ⟨hout, fun hword => hne ?_⟩
        -- a coroutine sleeps on one word only
        obtain ⟨⟨again', hpc'⟩, -⟩ := hinv.parked h d c hword
        rw [hpc, Pc.asleep.injEq] at hpc'
        exact ⟨hpc'.2.1, hpc'.1⟩
    asleep := by
      intro c e k again hpc
      rw [hqueue, List.mem_append, hhandle, word_release]
      obtain hin | hword := hinv.asleep c e k again hpc
      · exact .inl (.inl hin)
      · by_cases hslot : k = h ∧ e = d
        · obtain ⟨rfl, rfl⟩ := hslot
          exact .inl (.inr hword)
        · rw [if_neg hslot]
          exact .inr hword
    closed := by
      intro k hdis
      rw [disconnected_release] at hdis
      rw [open_release]
      exact hinv.closed k hdis
    hung := by
      intro k hdis e c
      rw [disconnected_release] at hdis
      rw [word_release]
      split
      · exact hw c
      · exact hinv.hung k hdis e c }

/-- Only the descriptor and the bit of a header change, and nobody is in the words of one
that gets the bit. -/
theorem Inv.setHeader (hinv : Inv s) {x : Header} (hword : ∀ e, x.word e = (s.headers h).word e)
    (hclosed : x.disconnected = true → x.open_ = false)
    (hfree : x.disconnected = true → ∀ e c, x.word e ≠ .parked c) : Inv (s.setHeader h x) := by
  have hwords : ∀ k e, ((s.setHeader h x).headers k).word e = (s.headers k).word e := by
    intro k e
    rw [headers_setHeader]
    split
    case isTrue hk => rw [hk, hword]
    case isFalse => rfl
  exact {
    nodup := hinv.nodup
    queued := hinv.queued
    parked := by
      intro k e c hc
      rw [hwords] at hc
      exact hinv.parked k e c hc
    asleep := by
      intro c e k again hpc
      rw [hwords]
      exact hinv.asleep c e k again hpc
    closed := by
      intro k
      rw [headers_setHeader]
      split
      · exact hclosed
      · exact hinv.closed k
    hung := by
      intro k
      rw [headers_setHeader]
      split
      · exact hfree
      · exact hinv.hung k }

theorem Inv.removeEvent (hinv : Inv s) (h : Nat) : Inv (s.removeEvent h) :=
  hinv.setHeader (fun e => by cases e <;> rfl) (fun _ => rfl) (fun hdis e c => by
    cases e
    · exact hinv.hung h hdis .read c
    · exact hinv.hung h hdis .write c)

theorem Inv.hang (hinv : Inv s) (hfree : ∀ e c, (s.headers h).word e ≠ .parked c) :
    Inv ((s.markDisconnected h).removeEvent h) := by
  have hboth : (s.markDisconnected h).removeEvent h =
      s.setHeader h { s.headers h with disconnected := true, open_ := false } := by
    simp only [State.markDisconnected, State.removeEvent, State.setHeader, Function.update_self,
      Function.update_idem]
  rw [hboth]
  refine hinv.setHeader (fun e => by cases e <;> rfl) (fun _ => rfl) fun _ e c => ?_
  cases e
  · exact hfree .read c
  · exact hfree .write c

/-- Firing a word and setting the bit of its header commute. -/
theorem fire_markDisconnected (s : State) (h : Nat) (d : Direction) :
    (s.markDisconnected h).fire h d = (s.fire h d).markDisconnected h := by
  cases d <;>
    simp only [State.fire, State.markDisconnected, State.setHeader, State.resumeWaiter,
      Header.setWord, Header.word, Function.update_self, Function.update_idem]

theorem word_fired (s : State) (h : Nat) (d e : Direction) (b : Bool) :
    ((if b then s.fire h d else s).headers h).word e =
      if b = true ∧ e = d then .ready else (s.headers h).word e := by
  cases b with
  | true =>
      rw [if_pos rfl]
      change ((s.release h d .ready).headers h).word e = _
      rw [word_release]
      exact if_congr (by simp) rfl rfl
  | false => rfl

theorem handle_parked {w : Word} {c : Nat} (h : w = .parked c) : w.handle ≠ none := by
  rw [h]
  nofun

theorem Inv.event (hinv : Inv s) {m : Mask} (hcareful : Careful s (.event h m)) :
    Inv (s.event h m) := by
  -- what the event fires, before the descriptor is closed
  let fired₁ := if m.epollin then s.fire h .read else s
  let fired₂ := if m.epollout then fired₁.fire h .write else fired₁
  have hinv₁ : Inv fired₁ := by
    change Inv (if m.epollin then s.fire h .read else s)
    split
    · exact hinv.release h .read nofun
    · exact hinv
  have hinv₂ : Inv fired₂ := by
    change Inv (if m.epollout then fired₁.fire h .write else fired₁)
    split
    · exact hinv₁.release h .write nofun
    · exact hinv₁
  by_cases hhup : (s.headers h).hangsUp m = true
  · have hevent : s.event h m = (fired₂.markDisconnected h).removeEvent h := by
      simp only [State.event, hhup, if_true]
      congr 1
      simp only [fired₂, fired₁]
      split <;> split <;> simp only [fire_markDisconnected]
    rw [hevent]
    obtain ⟨hin, hout⟩ := hcareful hhup
    apply hinv₂.hang
    intro e c hword
    simp only [fired₂, fired₁, word_fired] at hword
    cases e with
    | read =>
        rw [if_neg (by simp)] at hword
        split at hword
        case isTrue => exact absurd hword nofun
        case isFalse hno => exact hno ⟨hin (handle_parked hword), rfl⟩
    | write =>
        split at hword
        case isTrue => exact absurd hword nofun
        case isFalse hno =>
          rw [if_neg (by simp)] at hword
          exact hno ⟨hout (handle_parked hword), rfl⟩
  · have hevent : s.event h m = fired₂ := by
      simp only [State.event, Bool.eq_false_iff.mpr hhup, if_false, Bool.false_eq_true]
      rfl
    rw [hevent]
    exact hinv₂

theorem Inv.take (hinv : Inv s) (h : Nat) (d : Direction) : Inv (s.take h d) :=
  hinv.release h d (w := .idle) nofun

theorem Inv.timeout (hinv : Inv s) (h : Nat) : Inv (s.timeout h) :=
  ((hinv.take h .read).take h .write).removeEvent h

theorem Inv.onCancel (hinv : Inv s) (c : Nat) (d : Direction) (h : Nat) : Inv (s.onCancel c d h) := by
  unfold State.onCancel
  by_cases hword : (s.headers h).word d = .parked c
  · have hrelease := hinv.release h d (w := .idle) nofun
    rw [State.release, hword] at hrelease
    rw [if_pos hword]
    exact hrelease
  · rw [if_neg hword]
    exact hinv

theorem asleep_ne {c' k : Nat} {e : Direction} {again : Bool}
    (hold : ∀ d h again, s.pcs c ≠ .asleep d h again) (hpc : s.pcs c' = .asleep e k again) :
    c' ≠ c :=
  fun heq => hold e k again (heq ▸ hpc)

theorem setPc_of_ne {c' : Nat} {pc : Pc} (hne : c' ≠ c) : (s.setPc c pc).pcs c' = s.pcs c' :=
  Function.update_of_ne hne _ _

theorem setPc_asleep {c' k : Nat} {e : Direction} {again : Bool} {pc : Pc}
    (hold : ∀ d h again, s.pcs c ≠ .asleep d h again) (hpc : s.pcs c' = .asleep e k again) :
    (s.setPc c pc).pcs c' = .asleep e k again :=
  (setPc_of_ne (asleep_ne hold hpc)).trans hpc

theorem Inv.not_queued (hinv : Inv s) (hold : ∀ d h again, s.pcs c ≠ .asleep d h again) :
    c ∉ s.queue := by
  intro hin
  obtain ⟨e, k, again, hpc⟩ := hinv.queued c hin
  exact hold e k again hpc

theorem Inv.turn (hinv : Inv s) {pc : Pc} {running : Option Nat}
    (hold : ∀ d h again, s.pcs c ≠ .asleep d h again) (hnew : ∀ d h again, pc ≠ .asleep d h again) :
    Inv { s.setPc c pc with running := running } := by
  have hself : (s.setPc c pc).pcs c = pc := Function.update_self ..
  exact {
    nodup := hinv.nodup
    queued := by
      intro c' hc'
      obtain ⟨d, h, again, hpc⟩ := hinv.queued c' hc'
      exact ⟨d, h, again, setPc_asleep hold hpc⟩
    parked := by
      intro h d c' hword
      obtain ⟨⟨again, hpc⟩, hout⟩ := hinv.parked h d c' hword
      exact ⟨⟨again, setPc_asleep hold hpc⟩, hout⟩
    asleep := by
      intro c' d h again hpc
      by_cases hc : c' = c
      · rw [hc] at hpc
        exact absurd (hself.symm.trans hpc) (hnew d h again)
      · exact hinv.asleep c' d h again ((setPc_of_ne hc).symm.trans hpc)
    closed := hinv.closed
    hung := hinv.hung }

theorem Inv.resume (hinv : Inv s) (hqueue : c ∈ s.queue) (h : Nat) (d : Direction)
    (again : Bool) : Inv (s.resume c h d again) := by
  have hpcs : (s.resume c h d again).pcs =
      Function.update s.pcs c (if again && !s.requested c then .looping d h else .away) := rfl
  have hgone : c ∉ s.queue.erase c := hinv.nodup.not_mem_erase
  have hself : ∀ e k again', (s.resume c h d again).pcs c ≠ .asleep e k again' := by
    intro e k again'
    rw [hpcs, Function.update_self]
    split <;> nofun
  have hkeep : ∀ {c'}, c' ≠ c → (s.resume c h d again).pcs c' = s.pcs c' := by
    intro c' hne
    rw [hpcs, Function.update_of_ne hne]
  exact {
    nodup := hinv.nodup.erase c
    queued := by
      intro c' hc'
      obtain ⟨e, k, again', hpc⟩ := hinv.queued c' (List.mem_of_mem_erase hc')
      have hne : c' ≠ c := fun heq => hgone (heq ▸ hc')
      exact ⟨e, k, again', (hkeep hne).trans hpc⟩
    parked := by
      intro k e c' hword
      obtain ⟨⟨again', hpc⟩, hout⟩ := hinv.parked k e c' hword
      have hne : c' ≠ c := fun heq => hout (heq ▸ hqueue)
      exact ⟨⟨again', (hkeep hne).trans hpc⟩, fun hin => hout (List.mem_of_mem_erase hin)⟩
    asleep := by
      intro c' e k again' hpc
      by_cases hc : c' = c
      · rw [hc] at hpc
        exact absurd hpc (hself e k again')
      · rw [hkeep hc] at hpc
        obtain hin | hword := hinv.asleep c' e k again' hpc
        · exact .inl ((List.mem_erase_of_ne hc).mpr hin)
        · exact .inr hword
    closed := hinv.closed
    hung := hinv.hung }

theorem Inv.setIdle (hinv : Inv s) (hword : (s.headers h).word d = .ready) :
    Inv (s.setHeader h ((s.headers h).setWord d .idle)) := by
  have hrelease := hinv.release h d (w := .idle) nofun
  rw [State.release, hword, State.resumeWaiter, Word.handle, Option.toList_none,
    List.append_nil] at hrelease
  exact hrelease

theorem pcs_disarm : (s.disarm h d).pcs = s.pcs := by
  unfold State.disarm
  split <;> rfl

theorem Inv.probe (hinv : Inv s) (hpc : s.pcs c = .looping d h) (blocked : Bool) :
    Inv (s.probe c d h blocked) := by
  have hdisarm : Inv (s.disarm h d) := by
    unfold State.disarm
    by_cases hword : (s.headers h).word d = .ready
    · rw [if_pos hword]
      exact hinv.setIdle hword
    · rw [if_neg hword]
      exact hinv
  exact hdisarm.turn (by rw [pcs_disarm, hpc]; nofun) (by split <;> nofun)

/-- A coroutine goes to sleep, and its handle into the run queue. -/
theorem Inv.requeue (hinv : Inv s) {again : Bool} {running : Option Nat}
    (hold : ∀ d h again, s.pcs c ≠ .asleep d h again) :
    Inv { s.setPc c (.asleep d h again) with queue := s.queue ++ [c], running := running } := by
  have hself : (s.setPc c (.asleep d h again)).pcs c = .asleep d h again := Function.update_self ..
  exact {
    nodup := by
      rw [List.nodup_append]
      refine ⟨hinv.nodup, by simp, fun a ha b hb heq => hinv.not_queued hold ?_⟩
      rw [← List.mem_singleton.mp hb, ← heq]
      exact ha
    queued := by
      intro c' hc'
      obtain hc' | hc' := List.mem_append.mp hc'
      · obtain ⟨e, k, again', hpc⟩ := hinv.queued c' hc'
        exact ⟨e, k, again', setPc_asleep hold hpc⟩
      · rw [List.mem_singleton.mp hc']
        exact ⟨d, h, again, hself⟩
    parked := by
      intro k e c' hword
      obtain ⟨⟨again', hpc⟩, hno⟩ := hinv.parked k e c' hword
      refine ⟨⟨again', setPc_asleep hold hpc⟩, fun hin => ?_⟩
      obtain hin | hin := List.mem_append.mp hin
      · exact hno hin
      · exact asleep_ne hold hpc (List.mem_singleton.mp hin)
    asleep := by
      intro c' e k again' hpc
      by_cases hc : c' = c
      · exact .inl (List.mem_append_right _ (List.mem_singleton.mpr hc))
      · obtain hin | hword := hinv.asleep c' e k again' ((setPc_of_ne hc).symm.trans hpc)
        · exact .inl (List.mem_append_left _ hin)
        · exact .inr hword
    closed := hinv.closed
    hung := hinv.hung }

/-- `park` puts the handle into a word that is idle, of a header that is not closed. -/
theorem Inv.publish (hinv : Inv s) {again : Bool} {running : Option Nat}
    (hold : ∀ d h again, s.pcs c ≠ .asleep d h again) (hword : (s.headers h).word d = .idle)
    (hlive : ¬(s.headers h).Hung) :
    Inv { (s.setPc c (.asleep d h again)).setHeader h ((s.headers h).setWord d (.parked c)) with
      running := running } := by
  have hself : (s.setPc c (.asleep d h again)).pcs c = .asleep d h again := Function.update_self ..
  have hwords : ∀ k e, ((s.setHeader h ((s.headers h).setWord d (.parked c))).headers k).word e =
      if k = h ∧ e = d then .parked c else (s.headers k).word e := fun k e => word_release
  have hbits : ∀ k, ((s.setHeader h ((s.headers h).setWord d (.parked c))).headers k).disconnected =
      (s.headers k).disconnected := fun k => disconnected_release
  have hopens : ∀ k, ((s.setHeader h ((s.headers h).setWord d (.parked c))).headers k).open_ =
      (s.headers k).open_ := fun k => open_release
  exact {
    nodup := hinv.nodup
    queued := by
      intro c' hc'
      obtain ⟨e, k, again', hpc⟩ := hinv.queued c' hc'
      exact ⟨e, k, again', setPc_asleep hold hpc⟩
    parked := by
      intro k e c' hc'
      replace hc' := (hwords k e).symm.trans hc'
      split at hc'
      case isTrue hslot =>
        obtain ⟨rfl, rfl⟩ := hslot
        cases hc'
        exact ⟨⟨again, hself⟩, hinv.not_queued hold⟩
      case isFalse =>
        obtain ⟨⟨again', hpc⟩, hno⟩ := hinv.parked k e c' hc'
        exact ⟨⟨again', setPc_asleep hold hpc⟩, hno⟩
    asleep := by
      intro c' e k again' hpc
      by_cases hc : c' = c
      · rw [hc] at hpc
        obtain ⟨rfl, rfl, -⟩ := Pc.asleep.inj (hself.symm.trans hpc)
        refine .inr ((hwords h d).trans ?_)
        rw [if_pos ⟨rfl, rfl⟩, hc]
      · obtain hin | hparked := hinv.asleep c' e k again' ((setPc_of_ne hc).symm.trans hpc)
        · exact .inl hin
        · refine .inr ((hwords k e).trans ?_)
          rw [if_neg, hparked]
          rintro ⟨rfl, rfl⟩
          exact absurd (hword.symm.trans hparked) nofun
    closed := by
      intro k hdis
      exact (hopens k).trans (hinv.closed k ((hbits k).symm.trans hdis))
    hung := by
      intro k hdis e c' hc'
      replace hdis := (hbits k).symm.trans hdis
      replace hc' := (hwords k e).symm.trans hc'
      split at hc'
      case isTrue hslot =>
        rw [hslot.1] at hdis
        exact hlive ⟨hdis, hinv.closed h hdis⟩
      case isFalse => exact hinv.hung k hdis e c' hc' }

theorem Inv.park {again : Bool} (hinv : Inv s) (hpc : s.pcs c = .suspending d h again)
    (hcareful : s.requested c = false →
      (s.headers h).word d = .ready ∨ (s.headers h).word d = .idle ∧ ¬(s.headers h).Hung) :
    Inv (s.park c d h again) := by
  have hold : ∀ e k again', s.pcs c ≠ .asleep e k again' := by
    rw [hpc]
    nofun
  unfold State.park
  by_cases hrequest : s.requested c = true
  · rw [if_pos hrequest]
    exact hinv.requeue hold
  · rw [if_neg hrequest]
    obtain hready | ⟨hidle, hlive⟩ := hcareful (Bool.eq_false_iff.mpr hrequest)
    · rw [hready]
      exact (hinv.setIdle hready).requeue hold
    · rw [hidle]
      exact hinv.publish hold hidle hlive

/-- A read or a write that is about to park has found its descriptor open, and nobody else has
run since. -/
def State.Probed (s : State) : Prop :=
  ∀ c d h, s.pcs c = .suspending d h true → s.running = some c ∧ (s.headers h).open_ = true

theorem probed_new (hnew : s.New) : s.Probed := by
  intro c d h hpc
  rw [hnew.pcs] at hpc
  cases hpc

theorem State.Probed.of_idle (hprobed : s.Probed) (hrun : s.running = none) (hpcs : s'.pcs = s.pcs) :
    s'.Probed := by
  intro c d h hpc
  rw [hpcs] at hpc
  cases hrun.symm.trans (hprobed c d h hpc).1

theorem State.Probed.turn (hprobed : s.Probed) (pc : Pc) (hrun : s.running = some c)
    (hpcs : s'.pcs = Function.update s.pcs c pc)
    (hc : ∀ d h, pc = .suspending d h true → s'.running = some c ∧ (s'.headers h).open_ = true) :
    s'.Probed := by
  intro c' d h hpc
  rw [hpcs] at hpc
  by_cases heq : c' = c
  · subst heq
    rw [Function.update_self] at hpc
    exact hc d h hpc
  · rw [Function.update_of_ne heq] at hpc
    exact absurd (Option.some.inj ((hprobed c' d h hpc).1.symm.trans hrun)) heq

theorem pcs_event (s : State) (h : Nat) (m : Mask) : (s.event h m).pcs = s.pcs := by
  simp only [State.event]
  split <;> split <;> split <;> rfl

theorem running_disarm : (s.disarm h d).running = s.running := by
  unfold State.disarm
  split <;> rfl

theorem open_disarm {k : Nat} : ((s.disarm h d).headers k).open_ = (s.headers k).open_ := by
  unfold State.disarm
  split
  · exact open_release (w := .idle)
  · rfl

theorem probed_step {a : Action} (hprobed : s.Probed) (hstep : Step s a s') : s'.Probed := by
  cases hstep with
  | event h m hrun => exact hprobed.of_idle hrun (pcs_event s h m)
  | timeout h hrun => exact hprobed.of_idle hrun rfl
  | request c => exact hprobed
  | onCancel c d h again hpc =>
      unfold State.onCancel
      split
      · intro c' d' h' hpc'
        obtain ⟨hrun, hopen⟩ := hprobed c' d' h' hpc'
        refine ⟨hrun, Eq.trans ?_ hopen⟩
        exact open_release (w := .idle)
      · exact hprobed
  | resume c d h again hrun hqueue hpc =>
      intro c' d' h' hpc'
      by_cases heq : c' = c
      · subst heq
        simp only [State.resume, State.setPc, Function.update_self] at hpc'
        split at hpc' <;> cases hpc'
      · simp only [State.resume, State.setPc, Function.update_of_ne heq] at hpc'
        cases hrun.symm.trans (hprobed c' d' h' hpc').1
  | schedule c hrun hpc => exact hprobed.of_idle hrun rfl
  | leave c hrun hpc =>
      refine hprobed.turn .away hrun ?_ nofun
      exact (Function.update_eq_self_iff.mpr hpc.symm).symm
  | call c d h hrun hpc => exact hprobed.turn _ hrun rfl nofun
  | wait c d h hrun hpc => exact hprobed.turn _ hrun rfl nofun
  | probe c d h blocked hrun hpc =>
      have hpcs : (s.probe c d h blocked).pcs = Function.update s.pcs c
          (if (s.headers h).open_ && blocked then .suspending d h true else .away) := by
        rw [State.probe, State.setPc, pcs_disarm]
      refine hprobed.turn _ hrun hpcs fun d' h' hsuspends => ⟨?_, ?_⟩
      · rw [State.probe, State.setPc]
        exact running_disarm.trans hrun
      · split at hsuspends
        case isTrue hopen =>
          cases hsuspends
          exact open_disarm.trans (Bool.and_eq_true_iff.mp hopen).1
        case isFalse => cases hsuspends
  | remove c h hrun hpc =>
      refine hprobed.turn .away hrun ?_ nofun
      exact (Function.update_eq_self_iff.mpr hpc.symm).symm
  | park c d h again hrun hpc =>
      refine hprobed.turn (.asleep d h again) hrun ?_ nofun
      unfold State.park
      dsimp only
      split
      · rfl
      · split <;> rfl

theorem Inv.step {a : Action} (hinv : Inv s) (hprobed : s.Probed) (hstep : Step s a s')
    (hcareful : Careful s a) : Inv s' := by
  cases hstep with
  | event h m hrun => exact hinv.event hcareful
  | timeout h hrun => exact hinv.timeout h
  | request c => exact ⟨hinv.nodup, hinv.queued, hinv.parked, hinv.asleep, hinv.closed, hinv.hung⟩
  | onCancel c d h again hpc => exact hinv.onCancel c d h
  | resume c d h again hrun hqueue hpc => exact hinv.resume hqueue h d again
  | schedule c hrun hpc =>
      exact ⟨hinv.nodup, hinv.queued, hinv.parked, hinv.asleep, hinv.closed, hinv.hung⟩
  | leave c hrun hpc =>
      exact ⟨hinv.nodup, hinv.queued, hinv.parked, hinv.asleep, hinv.closed, hinv.hung⟩
  | call c d h hrun hpc => exact hinv.turn (by rw [hpc]; nofun) nofun
  | wait c d h hrun hpc => exact hinv.turn (by rw [hpc]; nofun) nofun
  | probe c d h blocked hrun hpc => exact hinv.probe hpc blocked
  | remove c h hrun hpc => exact hinv.removeEvent h
  | park c d h again hrun hpc =>
      refine hinv.park hpc fun hrequest => (hcareful hrequest d h again hpc).imp id fun hidle => ?_
      refine ⟨hidle.1, ?_⟩
      cases again with
      | false => exact hidle.2 rfl
      | true =>
        -- the probe has found the descriptor open
        have hopen := (hprobed c d h hpc).2
        exact fun hhung => absurd (hhung.2.symm.trans hopen) Bool.false_ne_true

theorem inv_of_runs (hruns : Runs Careful s) : Inv s ∧ s.Probed :=
  hruns.holds (fun hnew => ⟨inv_new hnew, probed_new hnew⟩) fun _ ih hstep hok =>
    ⟨ih.1.step ih.2 hstep hok, probed_step ih.2 hstep⟩

/-- In a careful run nobody is left on a header that the poller has closed. -/
theorem cared_for_of_runs (hruns : Runs Careful s) : s.Right := by
  obtain ⟨hinv, -⟩ := inv_of_runs hruns
  rintro ⟨-, hqueue⟩ h hhung d c
  have hfree := hinv.hung h hhung.1 d c
  refine ⟨fun again hpc => ?_, hfree⟩
  obtain hin | hword := hinv.asleep c d h again hpc
  · rw [hqueue] at hin
    exact absurd hin List.not_mem_nil
  · exact hfree hword

/-- The other way round: an error without `EPOLLIN`, while a coroutine is parked on the
read word and nothing else is going on, leaves it there for good. -/
theorem not_right_of_event {m : Mask} (hquiet : s.Quiet) (hparked : (s.headers h).rd = .parked c)
    (hhup : (s.headers h).hangsUp m = true) (hin : m.epollin = false) (hout : m.epollout = false) :
    ¬(s.event h m).Right := by
  have hevent : s.event h m = (s.markDisconnected h).removeEvent h := by
    simp only [State.event, hhup, hin, hout, if_true, if_false, Bool.false_eq_true]
  have hself : (s.event h m).headers h =
      { s.headers h with disconnected := true, open_ := false } := by
    rw [hevent]
    simp only [State.markDisconnected, State.removeEvent, State.setHeader, Function.update_self]
  intro hright
  have hquiet' : (s.event h m).Quiet := by
    rw [hevent]
    exact hquiet
  have hhung : ((s.event h m).headers h).Hung := by
    rw [hself]
    exact ⟨rfl, rfl⟩
  apply (hright hquiet' h hhung .read c).2
  rw [hself]
  exact hparked

end Steps

/-! ## Runs on one socket -/

def udp : State where
  headers _ := ⟨false, false, true, false, .idle, .idle⟩
  pcs _ := .away
  requested _ := false
  queue := []
  running := none

theorem udp_new : udp.New :=
  ⟨fun h d => by cases d <;> rfl, fun _ => rfl, fun _ => rfl, rfl, rfl⟩

/-- `EPOLLERR` alone, as an ICMP error on a connected datagram socket gives. -/
def errorOnly : Mask := ⟨false, false, false, false, true⟩

theorem runs_reader {ok : State → Action → Prop} (hok : ∀ s a, Careful s a → ok s a) :
    ∃ s, Runs ok s ∧ s.Quiet ∧ (s.headers 0).rd = .parked 0 ∧
      (s.headers 0).hangsUp errorOnly = true := by
  have h₀ : Runs ok udp := .start udp_new
  have h₁ := h₀.step (.schedule 0 rfl rfl) (hok _ _ trivial)
  have h₂ := h₁.step (.call 0 .read 0 rfl rfl) (hok _ _ trivial)
  have h₃ := h₂.step (.probe 0 .read 0 true rfl rfl) (hok _ _ trivial)
  have hidle : Careful (((({ udp with running := some 0 } : State).setPc 0
      (.looping .read 0))).probe 0 .read 0 true) (.park 0) := by
    intro _ d h again hpc
    cases hpc
    exact .inr ⟨rfl, fun _ hhung => absurd hhung.1 nofun⟩
  have h₄ := h₃.step (.park 0 .read 0 true rfl rfl) (hok _ _ hidle)
  exact ⟨_, h₄, ⟨rfl, rfl⟩, rfl, rfl⟩

/-- `EPOLLRDHUP` with `EPOLLIN`. -/
def hangUp : Mask := ⟨true, false, false, true, false⟩

/-- The reader parks, a hang-up closes the descriptor and fires it, it finds the descriptor closed
and reads once more. -/
theorem reader_right : ∃ s, Runs Careful s ∧ s.Quiet ∧ (s.headers 0).Hung ∧ s.Right := by
  have h₀ : Runs Careful udp := .start udp_new
  have h₁ := h₀.step (.schedule 0 rfl rfl)
  have h₂ := h₁.step (.call 0 .read 0 rfl rfl)
  have h₃ := h₂.step (.probe 0 .read 0 true rfl rfl)
  have h₄ := h₃.step (.park 0 .read 0 true rfl rfl) fun _ d h again hpc => by
    cases hpc
    exact .inr ⟨rfl, nofun⟩
  have h₅ := h₄.step (.event 0 hangUp rfl) fun _ => ⟨fun _ => rfl, fun hword => absurd rfl hword⟩
  have h₆ := h₅.step (.resume 0 .read 0 true rfl (.head _) rfl)
  have h₇ := h₆.step (.probe 0 .read 0 false rfl rfl)
  have h₈ := h₇.step (.call 0 .read 0 rfl rfl)
  have h₉ := h₈.step (.probe 0 .read 0 true rfl rfl)
  have h₁₀ := h₉.step (.leave 0 rfl rfl)
  exact ⟨_, h₁₀, ⟨rfl, rfl⟩, ⟨rfl, rfl⟩, cared_for_of_runs h₁₀⟩

/-- The reader parks, and the error comes without `EPOLLIN`. -/
theorem reader_stranded : ¬∀ s, Runs AnyAction s → s.Right := by
  intro hright
  have hok : ∀ s a, Careful s a → AnyAction s a := fun _ _ _ => trivial
  obtain ⟨s, hs, hquiet, hword, hhup⟩ := runs_reader hok
  have hrun := hs.step (.event 0 errorOnly hquiet.1)
  exact not_right_of_event hquiet hword hhup rfl rfl (hright _ hrun)

end Uvent.Net.HangUp
