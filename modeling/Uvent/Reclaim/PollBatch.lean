import Uvent.Reclaim.GracePeriod

/-!
# Batches of the epoll poller

`EPoller::poll` in the shared build, where `epoll_wait` hands out pointers to headers, beside
workers that destroy sockets and run `quiesce_tick`.  `poll` enters its section when
`epoll_wait` has returned, and what is destroyed before that has no guard.

A header is registered once in its life.  `destroy` takes it out of the set and retires it, at
once or from the done-callback of its timer, on whichever worker that runs.
-/

namespace Uvent.Reclaim.PollBatch

open Uvent.Lib
open Qsbr

/-- Where a worker is in `poll`: in `epoll_wait`, behind it with a batch, or in its section
with the part of the batch that is not handled. -/
inductive Turn where
  | away
  | waiting
  | returned (batch : List Nat)
  | handling (batch rest : List Nat)
  deriving DecidableEq, Repr

def Turn.batch : Turn → List Nat
  | .returned batch => batch
  | .handling batch _ => batch
  | _ => []

/-- `dropped` are the headers that `destroy` has taken out of the epoll set. -/
structure Poller where
  qsbr : Qsbr.State
  registered : Nat → Bool
  dropped : Nat → Bool
  turn : Nat → Turn

namespace Poller

def new : Poller := ⟨.new, fun _ => false, fun _ => false, fun _ => .away⟩

def setTurn (s : Poller) (t : Nat) (turn : Turn) : Poller :=
  { s with turn := Function.update s.turn t turn }

def removeEvent (s : Poller) (h : Nat) : Poller :=
  { s with registered := Function.update s.registered h false }

end Poller

inductive Event where
  | retire (h : Nat)
  | reclaim (e : Qsbr.Event)
  | other
  deriving DecidableEq, Repr

/-- What a worker outside `poll` does to the reclamation. -/
def background : Qsbr.Event → Bool
  | .advance | .adopt .. | .other => true
  | _ => false

inductive Step (s : Poller) : Event → Poller → Prop where
  | addEvent (h : Nat) (fresh : s.qsbr.retiredAt h = none) (kept : s.dropped h = false) :
      Step s .other { s with registered := Function.update s.registered h true }
  | wait (t : Nat) (away : s.turn t = .away) (pc : (s.qsbr.thread t).pc = .idle)
      (unlocked : ∀ t', s.turn t' = .away) : Step s .other (s.setTurn t .waiting)
  | epollReturn (t : Nat) (batch : List Nat) (waiting : s.turn t = .waiting)
      (ready : ∀ h ∈ batch, s.registered h = true) :
      Step s .other (s.setTurn t (.returned batch))
  | enter (t : Nat) (batch : List Nat) (q : Qsbr.State) (returned : s.turn t = .returned batch)
      (hstep : Qsbr.Step s.qsbr t .enter q) : Step s (.reclaim .enter) { s with qsbr := q }
  | entering (t : Nat) (batch : List Nat) (q : Qsbr.State) (returned : s.turn t = .returned batch)
      (pc : (s.qsbr.thread t).pc.outside = true) (hstep : Qsbr.Step s.qsbr t .other q) :
      Step s (.reclaim .other) { s with qsbr := q }
  | activate (t : Nat) (batch : List Nat) (q : Qsbr.State) (returned : s.turn t = .returned batch)
      (hstep : Qsbr.Step s.qsbr t .activate q) :
      Step s (.reclaim .activate) ({ s with qsbr := q }.setTurn t (.handling batch batch))
  | handle (t h : Nat) (batch rest : List Nat) (hup : Bool)
      (handling : s.turn t = .handling batch (h :: rest)) :
      Step s .other
        ((if hup then s.removeEvent h else s).setTurn t (.handling batch rest))
  | leave (t : Nat) (batch : List Nat) (q : Qsbr.State) (handling : s.turn t = .handling batch [])
      (hstep : Qsbr.Step s.qsbr t .leave q) :
      Step s (.reclaim .leave) ({ s with qsbr := q }.setTurn t .away)
  | destroy (h : Nat) (fresh : s.qsbr.retiredAt h = none) (kept : s.dropped h = false) :
      Step s .other { s.removeEvent h with dropped := Function.update s.dropped h true }
  | retire (t h : Nat) (q : Qsbr.State) (away : s.turn t = .away) (dropped : s.dropped h = true)
      (hstep : Qsbr.Step s.qsbr t (.retire h) q) : Step s (.retire h) { s with qsbr := q }
  | work (t : Nat) (e : Qsbr.Event) (q : Qsbr.State) (away : s.turn t = .away)
      (hback : background e = true) (hstep : Qsbr.Step s.qsbr t e q) :
      Step s (.reclaim e) { s with qsbr := q }

abbrev Runs (ok : Poller → Event → Prop) : Poller → Prop := LabelledRuns (· = .new) Step ok

/-- No header of a batch is retired between the return of `epoll_wait` and the moment at
which the section is announced, and the reclamation is timely itself. -/
def Announced (s : Poller) : Event → Prop
  | .retire h => ∀ t batch, s.turn t = .returned batch → h ∉ batch
  | .reclaim e => Qsbr.Timely s.qsbr e
  | .other => True

def Usable (s : Poller) : Prop := ∀ t, ∀ h ∈ (s.turn t).batch, h ∉ s.qsbr.deleted

variable {s s' : Poller} {e : Event} {q q' : Qsbr.State} {t t' h : Nat} {f : Qsbr.Event}

/-! ### What a step of the reclamation leaves alone -/

theorem step_thread (hstep : Qsbr.Step q t f q') (ht : t' ≠ t) : q'.thread t' = q.thread t' := by
  cases hstep with
  | detachOrphans pc =>
      split
      · exact Function.update_of_ne ht ..
      · exact Function.update_of_ne ht ..
  | _ => exact Function.update_of_ne ht ..

theorem step_retiredAt (hstep : Qsbr.Step q t f q') (hf : f ≠ .retire h) :
    q'.retiredAt h = q.retiredAt h := by
  cases hstep with
  | detachOrphans pc => split <;> rfl
  | retire p pc fresh =>
      refine Function.update_of_ne ?_ ..
      rintro rfl
      exact hf rfl
  | _ => rfl

theorem step_guarded (hstep : Qsbr.Step q t f q') (ht : t' ≠ t) (hf : f ≠ .retire h) :
    q'.guarded h t' = q.guarded h t' := by
  cases hstep with
  | detachOrphans pc => split <;> rfl
  | detach r pc tls | leave r pc tls => exact if_neg ht
  | retire p pc fresh =>
      refine congrFun (Function.update_of_ne ?_ ..) t'
      rintro rfl
      exact hf rfl
  | _ => rfl

theorem retire_guarded (hstep : Qsbr.Step q t (.retire h) q') (t' : Nat) :
    q'.guarded h t' = (q.thread t').inside := by
  cases hstep
  exact congrFun (Function.update_self h (fun t' => (q.thread t').inside) q.guarded) t'

/-! ### Batches -/

/-- A batch that was handed out has no retired header, or its worker is inside and guards
those that are. -/
inductive Safe (q : Qsbr.State) (t : Nat) : Turn → Prop where
  | away : Safe q t .away
  | waiting : Safe q t .waiting
  | returned (batch : List Nat) (live : ∀ h ∈ batch, q.retiredAt h = none) :
      Safe q t (.returned batch)
  | handling (batch rest : List Nat) (inside : (q.thread t).inside = true)
      (guarded : ∀ h ∈ batch, q.retiredAt h = none ∨ q.guarded h t = true) :
      Safe q t (.handling batch rest)

structure Batches (s : Poller) : Prop where
  registered : ∀ h, s.registered h = true → s.qsbr.retiredAt h = none ∧ s.dropped h = false
  safe : ∀ t, Safe s.qsbr t (s.turn t)

theorem batches_new : Batches .new := ⟨fun _ => nofun, fun _ => .away⟩

/-- Another worker does a step, and retires nothing between a return and an announcement. -/
theorem Safe.step {turn : Turn} (h : Safe q t' turn) (hstep : Qsbr.Step q t f q') (ht : t' ≠ t)
    (hf : ∀ batch, turn = .returned batch → ∀ h ∈ batch, f ≠ .retire h) : Safe q' t' turn := by
  cases h with
  | away => exact .away
  | waiting => exact .waiting
  | returned batch live =>
      refine .returned batch fun h hh => ?_
      rw [step_retiredAt hstep (hf batch rfl h hh)]
      exact live h hh
  | handling batch rest inside guarded =>
      have hinside : (q'.thread t').inside = true := by
        rw [step_thread hstep ht]
        exact inside
      refine .handling batch rest hinside fun h hh => ?_
      by_cases hretire : f = .retire h
      · subst hretire
        exact .inr ((retire_guarded hstep t').trans inside)
      · rw [step_retiredAt hstep hretire, step_guarded hstep ht hretire]
        exact guarded h hh

theorem Safe.entering {batch : List Nat} (h : Safe q t (.returned batch))
    (hstep : Qsbr.Step q t f q') (hf : ∀ h, f ≠ .retire h) : Safe q' t (.returned batch) := by
  cases h with
  | returned _ live =>
      refine .returned batch fun h hh => ?_
      rw [step_retiredAt hstep (hf h)]
      exact live h hh

theorem Safe.activate {batch : List Nat} (h : Safe q t (.returned batch))
    (hstep : Qsbr.Step q t .activate q') : Safe q' t (.handling batch batch) := by
  have hinside : (q'.thread t).inside = true := by
    cases hstep
    show (Function.update q.thread t _ t).inside = true
    rw [Function.update_self]
  cases h with
  | returned _ live =>
      refine .handling batch batch hinside fun h hh => .inl ?_
      rw [step_retiredAt hstep nofun]
      exact live h hh

theorem safe_setTurn {turn : Turn} (hself : Safe q t turn)
    (hothers : ∀ t', t' ≠ t → Safe q t' (s.turn t')) (t' : Nat) :
    Safe q t' (Function.update s.turn t turn t') := by
  by_cases ht : t' = t
  · rw [ht, Function.update_self]
    exact hself
  · rw [Function.update_of_ne ht]
    exact hothers t' ht

theorem registered_removeEvent (h₀ h₁ : Nat)
    (hin : (s.removeEvent h₀).registered h₁ = true) : h₁ ≠ h₀ ∧ s.registered h₁ = true := by
  have hin' : Function.update s.registered h₀ false h₁ = true := hin
  by_cases heq : h₁ = h₀
  · rw [heq, Function.update_self] at hin'
    cases hin'
  · rw [Function.update_of_ne heq] at hin'
    exact ⟨heq, hin'⟩

theorem step_batches (h : Batches s) (hok : Announced s e) (hstep : Step s e s') : Batches s' := by
  have hquiet : ∀ {t f q}, Qsbr.Step s.qsbr t f q → (∀ h, f ≠ .retire h) → ∀ h,
      s.registered h = true → q.retiredAt h = none ∧ s.dropped h = false := by
    intro t f q hstep hf h₀ hin
    rw [step_retiredAt hstep (hf h₀)]
    exact h.registered h₀ hin
  have hothers : ∀ {t f q}, Qsbr.Step s.qsbr t f q → (∀ h, f ≠ .retire h) → ∀ t', t' ≠ t →
      Safe q t' (s.turn t') := fun hstep hf t' ht =>
    (h.safe t').step hstep ht fun _ _ h₀ _ => hf h₀
  cases hstep with
  | addEvent h₀ fresh kept =>
      refine ⟨fun h₁ hin => ?_, h.safe⟩
      by_cases heq : h₁ = h₀
      · rw [heq]
        exact ⟨fresh, kept⟩
      · exact h.registered h₁ ((Function.update_of_ne heq ..).symm.trans hin)
  | wait t away pc unlocked =>
      exact ⟨h.registered, safe_setTurn .waiting fun t' _ => h.safe t'⟩
  | epollReturn t batch waiting ready =>
      exact ⟨h.registered, safe_setTurn
        (.returned batch fun h₀ hin => (h.registered h₀ (ready h₀ hin)).1) fun t' _ => h.safe t'⟩
  | enter t batch q returned hstep =>
      refine ⟨hquiet hstep nofun, fun t' => ?_⟩
      by_cases ht : t' = t
      · have hsafe := h.safe t
        rw [returned] at hsafe
        show Safe q t' (s.turn t')
        rw [ht, returned]
        exact hsafe.entering hstep nofun
      · exact hothers hstep nofun t' ht
  | entering t batch q returned pc hstep =>
      refine ⟨hquiet hstep nofun, fun t' => ?_⟩
      by_cases ht : t' = t
      · have hsafe := h.safe t
        rw [returned] at hsafe
        show Safe q t' (s.turn t')
        rw [ht, returned]
        exact hsafe.entering hstep nofun
      · exact hothers hstep nofun t' ht
  | activate t batch q returned hstep =>
      have hsafe := h.safe t
      rw [returned] at hsafe
      exact ⟨hquiet hstep nofun, safe_setTurn (hsafe.activate hstep) (hothers hstep nofun)⟩
  | handle t h₀ batch rest hup handling =>
      have hsafe := h.safe t
      rw [handling] at hsafe
      have hlater : Safe s.qsbr t (.handling batch rest) := by
        cases hsafe with
        | handling _ _ inside guarded => exact .handling batch rest inside guarded
      cases hup with
      | true =>
          refine ⟨fun h₁ hin => ?_, safe_setTurn hlater fun t' _ => h.safe t'⟩
          exact h.registered h₁ (registered_removeEvent h₀ h₁ hin).2
      | false => exact ⟨h.registered, safe_setTurn hlater fun t' _ => h.safe t'⟩
  | leave t batch q handling hstep =>
      exact ⟨hquiet hstep nofun, safe_setTurn .away (hothers hstep nofun)⟩
  | destroy h₀ fresh kept =>
      refine ⟨fun h₁ hin => ?_, h.safe⟩
      obtain ⟨hne, hold⟩ := registered_removeEvent h₀ h₁ hin
      exact ⟨(h.registered h₁ hold).1, (Function.update_of_ne hne ..).trans (h.registered h₁ hold).2⟩
  | retire t h₀ q away dropped hstep =>
      refine ⟨fun h₁ hin => ?_, fun t' => ?_⟩
      · have hne : Qsbr.Event.retire h₀ ≠ .retire h₁ := by
          rintro ⟨⟩
          rw [(h.registered h₀ hin).2] at dropped
          cases dropped
        show q.retiredAt h₁ = none ∧ s.dropped h₁ = false
        rw [step_retiredAt hstep hne]
        exact h.registered h₁ hin
      · by_cases ht : t' = t
        · show Safe q t' (s.turn t')
          rw [ht, away]
          exact .away
        · refine (h.safe t').step hstep ht fun batch hturn h₁ hin => ?_
          rintro ⟨⟩
          exact hok t' batch hturn hin
  | work t e q away hback hstep =>
      have hne : ∀ h, e ≠ .retire h := by
        rintro h rfl
        cases hback
      refine ⟨hquiet hstep hne, fun t' => ?_⟩
      by_cases ht : t' = t
      · show Safe q t' (s.turn t')
        rw [ht, away]
        exact .away
      · exact hothers hstep hne t' ht

theorem timely_of_runs (h : Runs Announced s) : Qsbr.Runs Timely s.qsbr := by
  refine h.holds (fun hs => hs ▸ .start rfl) fun _ ih hstep meets => ?_
  cases hstep with
  | addEvent | wait | epollReturn | destroy => exact ih
  | handle t h₀ batch rest hup handling =>
      cases hup with
      | true => exact ih
      | false => exact ih
  | enter _ _ _ _ hstep | entering _ _ _ _ _ hstep | activate _ _ _ _ hstep
  | leave _ _ _ _ hstep => exact ih.step hstep meets
  | retire t h₀ q away dropped hstep => exact ih.step hstep
  | work t e q away hback hstep => exact ih.step hstep meets

theorem batches_of_runs (h : Runs Announced s) : Batches s :=
  h.holds (fun hs => hs ▸ batches_new) fun _ ih hstep meets => step_batches ih meets hstep

/-- When no header of a batch is retired before the section is announced, none is deleted
before the batch is handled. -/
theorem usable_of_announcedRuns (s : Poller) (hruns : Runs Announced s) : Usable s := by
  intro t h hbatch hdeleted
  have hq := timely_of_runs hruns
  obtain ⟨n, hn⟩ := (books_of_runs hq).known .deleted h hdeleted
  have hfree := (grace_of_runs hq).deleted h hdeleted t
  have hsafe := (batches_of_runs hruns).safe t
  generalize s.turn t = turn at hbatch hsafe
  cases hsafe with
  | away | waiting => cases hbatch
  | returned batch live =>
      rw [live h hbatch] at hn
      cases hn
  | handling batch rest inside guarded =>
      rcases guarded h hbatch with hnone | hguard
      · rw [hnone] at hn
        cases hn
      · rw [hfree] at hguard
        cases hguard

/-- A header is destroyed while its batch is handled. -/
theorem destroyed_usable : ∃ s, s.turn 0 = .handling [7] [7] ∧ s.qsbr.retiredAt 7 = some 0 ∧
    Usable s := by
  have h₀ : Runs Announced .new := .start rfl
  have h₁ := h₀.step (.work _ _ _ rfl rfl (.attach 0 rfl rfl))
  have h₂ := h₁.step (.work _ _ _ rfl rfl (.attachNew 0 rfl))
  have h₃ := h₂.step (.work _ _ _ rfl rfl (.attachPush 0 0 rfl))
  have h₄ := (h₃.step (.addEvent 7 rfl rfl)).step (.wait 0 rfl rfl fun _ => rfl)
  have h₅ := h₄.step (.epollReturn 0 [7] rfl (by decide))
  have h₆ := h₅.step (.enter 0 [7] _ rfl (.enter 0 0 rfl rfl rfl))
  have h₇ := h₆.step (.entering 0 [7] _ rfl rfl (.enterEpoch 0 0 _ rfl rfl))
  have h₈ := h₇.step (.activate 0 [7] _ rfl (.enterActive 0 0 rfl rfl))
  have h₉ := h₈.step (.destroy 7 rfl rfl)
  have hannounced : ∀ t batch, Function.update (Function.update (Function.update
      (fun _ => Turn.away) 0 .waiting) 0 (.returned [7])) 0 (.handling [7] [7]) t =
      .returned batch → 7 ∉ batch := by
    intro t batch hturn
    cases t with
    | zero => exact Turn.noConfusion hturn
    | succ t => exact Turn.noConfusion hturn
  have h₁₀ := h₉.step (.retire 1 7 _ rfl rfl (.retire 1 7 rfl rfl)) hannounced
  exact ⟨_, rfl, rfl, usable_of_announcedRuns _ h₁₀⟩

/-- A header is destroyed, retired and deleted when its batch has returned and the section is
not announced. -/
theorem destroyed_not_usable : ∃ s, Runs (fun _ _ => True) s ∧ s.turn 0 = .returned [7] ∧
    ¬ Usable s := by
  -- two workers attach, and the header is in the batch that the first one gets
  have h₀ : Runs (fun _ _ => True) .new := .start rfl
  have h₁ := h₀.step (.work _ _ _ rfl rfl (.attach 0 rfl rfl))
  have h₂ := h₁.step (.work _ _ _ rfl rfl (.attachNew 0 rfl))
  have h₃ := h₂.step (.work _ _ _ rfl rfl (.attachPush 0 0 rfl))
  have h₄ := h₃.step (.work _ _ _ rfl rfl (.attach 1 rfl rfl))
  have h₅ := h₄.step (.work _ _ _ rfl rfl (.attachTry 1 _ _ rfl rfl))
  have h₆ := h₅.step (.work _ _ _ rfl rfl (.attachNew 1 rfl))
  have h₇ := h₆.step (.work _ _ _ rfl rfl (.attachPush 1 1 rfl))
  have h₈ := (h₇.step (.addEvent 7 rfl rfl)).step (.wait 0 rfl rfl fun _ => rfl)
  have h₉ := h₈.step (.epollReturn 0 [7] rfl (by decide))
  -- the other worker destroys the socket and ticks
  have h₁₀ := (h₉.step (.destroy 7 rfl rfl)).step (.retire 1 7 _ rfl rfl (.retire 1 7 rfl rfl))
  have h₁₁ := h₁₀.step (.work _ _ _ rfl rfl (.tick 1 rfl))
  have h₁₂ := h₁₁.step (.work _ _ _ rfl rfl (.scanInUse 1 _ _ _ _ rfl))
  have h₁₃ := h₁₂.step (.work _ _ _ rfl rfl (.scanActive 1 _ _ _ _ rfl))
  have h₁₄ := h₁₃.step (.work _ _ _ rfl rfl (.scanInUse 1 _ _ _ _ rfl))
  have h₁₅ := h₁₄.step (.work _ _ _ rfl rfl (.scanActive 1 _ _ _ _ rfl))
  have h₁₆ := h₁₅.step (.work _ _ _ rfl rfl (.scanFirst 1 _ rfl))
  have h₁₇ := h₁₆.step (.work _ _ _ rfl rfl (.compare 1 _ rfl))
  have h₁₈ := h₁₇.step (.work _ _ _ rfl rfl (.advance 1 rfl))
  have h₁₉ := h₁₈.step (.work _ _ _ rfl rfl (.rescan 1 rfl))
  have h₂₀ := h₁₉.step (.work _ _ _ rfl rfl (.scanInUse 1 _ _ _ _ rfl))
  have h₂₁ := h₂₀.step (.work _ _ _ rfl rfl (.scanActive 1 _ _ _ _ rfl))
  have h₂₂ := h₂₁.step (.work _ _ _ rfl rfl (.scanInUse 1 _ _ _ _ rfl))
  have h₂₃ := h₂₂.step (.work _ _ _ rfl rfl (.scanActive 1 _ _ _ _ rfl))
  have h₂₄ := h₂₃.step (.work _ _ _ rfl rfl (.scanSafe 1 _ _ rfl))
  have h₂₅ := h₂₄.step (.work _ _ _ rfl rfl (.sweepDelete 1 _ _ _ _ _ rfl rfl (by decide)))
  refine ⟨_, h₂₅, rfl, fun husable => ?_⟩
  exact husable 0 7 (List.mem_singleton_self 7) (List.mem_singleton_self 7)

end Uvent.Reclaim.PollBatch
