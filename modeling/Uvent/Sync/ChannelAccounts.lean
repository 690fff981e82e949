import Uvent.Lib.PlaceAccounts
import Uvent.Sync.ChannelSteps

/-!
# The accounts of the channels

What the calls of a program report of the elements that go through a channel: those of
`send`, `try_send`, `recv`, `try_recv`, `select` and `select_recv`, cancelled or not.
-/

namespace Uvent.Sync.Primitives

open Uvent.Lib Uvent.Queue Uvent.Sync.Suspension

variable {α : Type}

attribute [ext] Item

structure State.Told (s : State α) : Prop where
  once : ∀ t n call call' a a', .returned t n call a ∈ s.log → .returned t n call' a' ∈ s.log →
    call = call' ∧ a = a'
  past : ∀ t n call a, .returned t n call a ∈ s.log →
    n < s.calls t ∨ n = s.calls t ∧ s.pcs t = .idle

def State.Sent (s : State α) (c : Nat) (it : Item α) : Prop :=
  ∃ call i, call.ops[i]? = some (.send c it.value) ∧
    s.Ended it.caller it.call call (.done i (.sent true))

def State.Received (s : State α) (c t n : Nat) (it : Item α) : Prop :=
  ∃ call i, call.ops[i]? = some (.recv c) ∧ s.Ended t n call (.done i (.received (some it)))

def State.Sending (s : State α) (c : Nat) (it : Item α) : Prop :=
  it.call = s.calls it.caller ∧ (s.pcs it.caller).role c = .sends it.value ∧
    (s.words.channels c).queue.Doing it.caller (.put it true)

def State.accounts (s : State α) : Accounts Nat Nat (Item α) where
  places c := (s.words.channels c).queue.places
  sending := s.Sending
  sent := s.Sent
  received := s.Received

/-! ### The answers -/

namespace State.Told

variable {s s' : State α} {t n : Nat} {call : Call α} {a : Answer α}

theorem new (w : Words α) : (State.new w).Told where
  once _ _ _ _ _ _ h := (List.not_mem_nil h).elim
  past _ _ _ _ h := (List.not_mem_nil h).elim

theorem before (h : s.Told) (hbusy : s.pcs t ≠ .idle) (hnone : (s.pcs t).ended = none)
    (hended : s.Ended t n call a) : n < s.calls t := by
  obtain hlog | ⟨-, hpc⟩ := hended
  · exact (h.past t n call a hlog).resolve_right fun hidle => hbusy hidle.2
  · cases hnone.symm.trans hpc

/-- A call has one answer. -/
theorem unique {call' : Call α} {a' : Answer α} (h : s.Told) (hended : s.Ended t n call a)
    (hended' : s.Ended t n call' a') : call = call' ∧ a = a' := by
  have hpast : ∀ {call a call' a'}, .returned t n call a ∈ s.log → n = s.calls t →
      (s.pcs t).ended ≠ some (call', a') := by
    intro call a call' a' hlog hn hpc
    obtain hlt | ⟨-, hidle⟩ := h.past t n call a hlog
    · omega
    · rw [hidle] at hpc
      cases hpc
  obtain hlog | ⟨hn, hpc⟩ := hended
  · obtain hlog' | ⟨hn', hpc'⟩ := hended'
    · exact h.once t n call call' a a' hlog hlog'
    · exact absurd hpc' (hpast hlog hn')
  · obtain hlog' | ⟨hn', hpc'⟩ := hended'
    · exact absurd hpc (hpast hlog' hn)
    · cases hpc.symm.trans hpc'
      exact ⟨rfl, rfl⟩

theorem goes (h : s.Told) {pc : Pc α} (hbusy : s.pcs t ≠ .idle)
    (hpcs : s'.pcs = Function.update s.pcs t pc) (hcalls : s'.calls = s.calls)
    (hlog : ∀ u n call a, .returned u n call a ∈ s'.log ↔ .returned u n call a ∈ s.log) :
    s'.Told where
  once u n call call' a a' hr hr' :=
    h.once u n call call' a a' ((hlog ..).mp hr) ((hlog ..).mp hr')
  past u n call a hr := by
    rw [hcalls, hpcs]
    obtain hlt | ⟨heq, hidle⟩ := h.past u n call a ((hlog ..).mp hr)
    · exact .inl hlt
    · have hu : u ≠ t := by
        rintro rfl
        exact hbusy hidle
      exact .inr ⟨heq, (Function.update_of_ne hu ..).trans hidle⟩

theorem begins (h : s.Told) {pc : Pc α} (hpcs : s'.pcs = Function.update s.pcs t pc)
    (hcalls : s'.calls = Function.update s.calls t (s.calls t + 1)) (hlog : s'.log = s.log) :
    s'.Told where
  once := by
    rw [hlog]
    exact h.once
  past u n call a hr := by
    rw [hlog] at hr
    rw [hcalls, hpcs]
    have hold := h.past u n call a hr
    by_cases hu : u = t
    · subst hu
      rw [Function.update_self]
      omega
    · rwa [Function.update_of_ne hu, Function.update_of_ne hu]

theorem finishes (h : s.Told) (hpcs : s'.pcs = Function.update s.pcs t .idle)
    (hbusy : s.pcs t ≠ .idle) (hcalls : s'.calls = s.calls)
    (hlog : s'.log = .returned t (s.calls t) call a :: s.log) : s'.Told := by
  have hlast : ∀ call a, .returned t (s.calls t) call a ∉ s.log := by
    intro call a hr
    obtain hlt | ⟨-, hidle⟩ := h.past _ _ _ _ hr
    · exact Nat.lt_irrefl _ hlt
    · exact hbusy hidle
  constructor
  case once =>
    intro u n call₁ call₂ a₁ a₂ hr hr'
    rw [hlog] at hr hr'
    obtain heq | hmem := List.mem_cons.mp hr
    · obtain ⟨rfl, rfl, rfl, rfl⟩ := Entry.returned.inj heq
      obtain heq' | hmem' := List.mem_cons.mp hr'
      · obtain ⟨-, -, rfl, rfl⟩ := Entry.returned.inj heq'
        exact ⟨rfl, rfl⟩
      · exact absurd hmem' (hlast _ _)
    · obtain heq' | hmem' := List.mem_cons.mp hr'
      · obtain ⟨rfl, rfl, -, -⟩ := Entry.returned.inj heq'
        exact absurd hmem (hlast _ _)
      · exact h.once u n call₁ call₂ a₁ a₂ hmem hmem'
  case past =>
    intro u n call' a' hr
    rw [hlog] at hr
    rw [hcalls, hpcs]
    obtain hr | hr := List.mem_cons.mp hr
    · obtain ⟨rfl, rfl, -, -⟩ := Entry.returned.inj hr
      exact .inr ⟨rfl, Function.update_self ..⟩
    · obtain hlt | ⟨heq, hidle⟩ := h.past u n call' a' hr
      · exact .inl hlt
      · have hu : u ≠ t := by
          rintro rfl
          exact hbusy hidle
        exact .inr ⟨heq, (Function.update_of_ne hu ..).trans hidle⟩

theorem course (h : s.Told) (hcourse : Course s s') : s'.Told := by
  cases hcourse with
  | within hpcs hwords hcalls hlog =>
    refine ⟨?_, ?_⟩
    · rw [hlog]
      exact h.once
    · rw [hlog, hcalls, hpcs]
      exact h.past
  | begins t pc hidle hrole hended hwords hpcs hcalls hlog => exact h.begins hpcs hcalls hlog
  | goes t pc hbusy hold hnew hended hpcs hqueues hcalls hlog => exact h.goes hbusy hpcs hcalls hlog
  | finishes t call a hended hold hpcs hwords hcalls hlog =>
    refine h.finishes hpcs ?_ hcalls hlog
    intro hidle
    rw [hidle] at hended
    cases hended
  | enters t c k ctx op q j hpc hop hchannel hfits hj htakes hplaces hstate =>
    subst hstate
    refine h.goes (t := t) ?_ rfl rfl fun _ _ _ _ => Iff.rfl
    rw [hpc]
    nofun
  | moves t c k ctx op pc q j j' r hgoes hstate =>
    subst hstate
    refine h.goes (t := t) ?_ rfl rfl fun _ _ _ _ => Iff.rfl
    rw [hgoes.trying]
    nofun

end State.Told

section Answers

variable {s s' : State α} {t : Nat}

theorem ended_goes {pc : Pc α} {u n : Nat} {call : Call α} {a : Answer α}
    (hpcs : s'.pcs = Function.update s.pcs t pc) (hcalls : s'.calls = s.calls)
    (hlog : ∀ u n call a, .returned u n call a ∈ s'.log ↔ .returned u n call a ∈ s.log)
    (hsame : pc.ended = some (call, a) ↔ (s.pcs t).ended = some (call, a)) :
    s'.Ended u n call a ↔ s.Ended u n call a := by
  rw [State.Ended, State.Ended, hlog, hcalls, hpcs]
  by_cases hu : u = t
  · subst hu
    rw [Function.update_self, hsame]
  · rw [Function.update_of_ne hu]

theorem ended_comes {pc : Pc α} {u n : Nat} {call : Call α} {a : Answer α}
    (hpcs : s'.pcs = Function.update s.pcs t pc) (hcalls : s'.calls = s.calls)
    (hlog : s'.log = s.log) (hnone : (s.pcs t).ended = none) :
    s'.Ended u n call a ↔
      s.Ended u n call a ∨ u = t ∧ n = s.calls t ∧ pc.ended = some (call, a) := by
  rw [State.Ended, State.Ended, hlog, hcalls, hpcs]
  by_cases hu : u = t
  · subst hu
    rw [Function.update_self, hnone]
    simp only [reduceCtorEq, and_false, or_false, true_and]
  · rw [Function.update_of_ne hu]
    exact (or_iff_left fun h => hu h.1).symm

theorem ended_begins {pc : Pc α} {u n : Nat} {call : Call α} {a : Answer α}
    (hidle : s.pcs t = .idle) (hended : pc.ended = none)
    (hpcs : s'.pcs = Function.update s.pcs t pc)
    (hcalls : s'.calls = Function.update s.calls t (s.calls t + 1)) (hlog : s'.log = s.log) :
    s'.Ended u n call a ↔ s.Ended u n call a := by
  rw [State.Ended, State.Ended, hlog, hcalls, hpcs]
  by_cases hu : u = t
  · subst hu
    rw [Function.update_self, Function.update_self, hidle, hended]
    simp only [Pc.ended, reduceCtorEq, and_false]
  · rw [Function.update_of_ne hu, Function.update_of_ne hu]

theorem ended_finishes {u n : Nat} {call call' : Call α} {a a' : Answer α}
    (hended : (s.pcs t).ended = some (call, a)) (hpcs : s'.pcs = Function.update s.pcs t .idle)
    (hcalls : s'.calls = s.calls) (hlog : s'.log = .returned t (s.calls t) call a :: s.log) :
    s'.Ended u n call' a' ↔ s.Ended u n call' a' := by
  rw [State.Ended, State.Ended, hlog, hcalls, hpcs, List.mem_cons]
  by_cases hu : u = t
  · subst hu
    rw [Function.update_self, hended]
    simp only [Pc.ended, reduceCtorEq, and_false, or_false, Option.some.injEq, Prod.mk.injEq,
      Entry.returned.injEq, true_and]
    rw [or_comm]
    refine or_congr Iff.rfl (and_congr Iff.rfl ?_)
    exact ⟨fun hx => ⟨hx.1.symm, hx.2.symm⟩, fun hx => ⟨hx.1.symm, hx.2.symm⟩⟩
  · rw [Function.update_of_ne hu, or_iff_right fun hx => hu (Entry.returned.inj hx).1]

def State.Keeps (s s' : State α) : Prop :=
  ∀ u n call a, ¬a.Void → (s'.Ended u n call a ↔ s.Ended u n call a)

theorem State.Keeps.sent (h : s.Keeps s') (c : Nat) (it : Item α) : s'.Sent c it ↔ s.Sent c it := by
  constructor
  · rintro ⟨call, i, hop, hended⟩
    exact ⟨call, i, hop, (h _ _ _ _ id).mp hended⟩
  · rintro ⟨call, i, hop, hended⟩
    exact ⟨call, i, hop, (h _ _ _ _ id).mpr hended⟩

theorem State.Keeps.received (h : s.Keeps s') (c u n : Nat) (it : Item α) :
    s'.Received c u n it ↔ s.Received c u n it := by
  constructor
  · rintro ⟨call, i, hop, hended⟩
    exact ⟨call, i, hop, (h _ _ _ _ id).mp hended⟩
  · rintro ⟨call, i, hop, hended⟩
    exact ⟨call, i, hop, (h _ _ _ _ id).mpr hended⟩

theorem sending_iff {c : Nat} {it : Item α} {j : Job (Item α)}
    (hdoing : (s.words.channels c).queue.Doing it.caller j)
    (hfits : ((s.pcs it.caller).role c).Fits it.caller (s.calls it.caller) j) :
    s.Sending c it ↔ j = .put it true := by
  constructor
  · rintro ⟨hcall, hrole, hput⟩
    rw [hrole] at hfits
    obtain ⟨done, rfl⟩ := hfits
    obtain rfl := Queue.done_eq hdoing hput
    rw [← hcall]
  · rintro rfl
    rw [State.Sending]
    cases hrole : (s.pcs it.caller).role c with
    | out =>
      rw [hrole] at hfits
      cases hfits
    | receives =>
      rw [hrole] at hfits
      cases hfits
    | sends v =>
      rw [hrole] at hfits
      obtain ⟨done, hjob⟩ := hfits
      obtain ⟨hit, rfl⟩ := Job.put.inj hjob
      refine ⟨congrArg Item.call hit, ?_, hdoing⟩
      exact congrArg Role.sends (congrArg Item.value hit).symm

theorem not_sending {c : Nat} {it : Item α} (h : (s.pcs it.caller).role c = .out) :
    ¬s.Sending c it := by
  rintro ⟨-, hrole, -⟩
  cases h.symm.trans hrole

theorem sending_goes {pc : Pc α} (hold : ∀ c, (s.pcs t).role c = .out)
    (hnew : ∀ c, pc.role c = .out) (hpcs : s'.pcs = Function.update s.pcs t pc)
    (hqueues : ∀ c, (s'.words.channels c).queue = (s.words.channels c).queue)
    (hcalls : ∀ u, u ≠ t → s'.calls u = s.calls u) (c : Nat) (it : Item α) :
    s'.Sending c it ↔ s.Sending c it := by
  by_cases hu : it.caller = t
  · refine iff_of_false (not_sending ?_) (not_sending ?_)
    · rw [hpcs, hu, Function.update_self]
      exact hnew c
    · rw [hu]
      exact hold c
  · rw [State.Sending, State.Sending, hcalls _ hu, hpcs, Function.update_of_ne hu, hqueues]

/-- The others are where they were when coroutine `t` goes on in the queue of channel `c`. -/
theorem sending_takes {c d : Nat} {pc : Pc α} {q : Queue (Item α)} {j : Job (Item α)}
    {it : Item α} (htakes : (s.words.channels c).queue.Takes t q j)
    (hold : ∀ d, d ≠ c → (s.pcs t).role d = .out) (hnew : ∀ d, d ≠ c → pc.role d = .out)
    (hpcs : s'.pcs = Function.update s.pcs t pc)
    (hwords : s'.words.channels = (s.words.setQueue c q).channels) (hcalls : s'.calls = s.calls)
    (hother : ¬(d = c ∧ it.caller = t)) : s'.Sending d it ↔ s.Sending d it := by
  rw [State.Sending, State.Sending, hcalls, hpcs, hwords]
  by_cases hu : it.caller = t
  · have hd : d ≠ c := fun hd => hother ⟨hd, hu⟩
    rw [hu, Function.update_self, hold d hd, hnew d hd]
    refine iff_of_false ?_ ?_
    · rintro ⟨-, hrole, -⟩
      cases hrole
    · rintro ⟨-, hrole, -⟩
      cases hrole
  · rw [Function.update_of_ne hu]
    refine and_congr Iff.rfl (and_congr Iff.rfl ?_)
    by_cases hd : d = c
    · subst hd
      rw [Words.setQueue_self]
      exact htakes.others _ _ hu
    · rw [Words.setQueue_of_ne q hd]

end Answers

/-! ### The steps -/

section Steps

variable {s s' : State α} {t c k : Nat} {ctx : Ctx α} {op : Op α} {pc : Pc α} {q : Queue (Item α)}
  {j j' : Job (Item α)} {r : Option (Reply (Item α))}

/-- A step that is outside of the queues leaves the accounts. -/
theorem quiet_of_keeps (hplaces : ∀ c, s'.accounts.places c = s.accounts.places c)
    (hsending : ∀ c it, s'.Sending c it ↔ s.Sending c it) (hkeeps : s.Keeps s') :
    Accounts.Step Item.caller Item.call s.accounts s'.accounts :=
  .quiet (funext hplaces) hsending hkeeps.sent hkeeps.received

theorem call_fresh (h : s.Told) (hbusy : s.pcs t ≠ .idle) (hnone : (s.pcs t).ended = none) :
    (∀ d it, s.Sent d it → it.caller = t → it.call < s.calls t) ∧
      ∀ d n it, s.Received d t n it → n < s.calls t := by
  constructor
  · rintro d it ⟨call, i, -, hended⟩ rfl
    exact h.before hbusy hnone hended
  · rintro d n it ⟨call, i, -, hended⟩
    exact h.before hbusy hnone hended

theorem places_setQueue (hstate : s' = { s.setPc t pc with words := s.words.setQueue c q }) :
    s'.accounts.places c = q.places ∧
      ∀ d, d ≠ c → s'.accounts.places d = s.accounts.places d := by
  subst hstate
  refine ⟨?_, fun d hd => ?_⟩
  · change ((s.words.setQueue c q).channels c).queue.places = _
    rw [Words.setQueue_self]
  · change ((s.words.setQueue c q).channels d).queue.places = _
    rw [Words.setQueue_of_ne q hd]
    rfl

namespace Goes

variable (h : Goes s t c k ctx op pc q j j' r)
include h

theorem runs : s.pcs t ≠ .idle ∧ (s.pcs t).ended = none := by
  rw [h.trying]
  exact ⟨nofun, rfl⟩

theorem sending (hstate : s' = { s.setPc t pc with words := s.words.setQueue c q }) (d : Nat)
    (it : Item α) :
    (s.Sending d it ↔ if d = c ∧ it.caller = t then j = .put it true else s.Sending d it) ∧
      (s'.Sending d it ↔
        if d = c ∧ it.caller = t then j' = .put it true else s.Sending d it) := by
  by_cases hself : d = c ∧ it.caller = t
  · rw [if_pos hself, if_pos hself]
    obtain ⟨rfl, rfl⟩ := hself
    refine ⟨sending_iff h.doing ?_, sending_iff ?_ ?_⟩
    · rw [h.trying, Pc.role_queue h.tried]
      exact h.fits
    · subst hstate
      change ((s.words.setQueue d q).channels d).queue.Doing _ _
      rw [Words.setQueue_self]
      exact h.takes.doing
    · subst hstate
      change ((Function.update s.pcs it.caller pc it.caller).role d).Fits _ _ _
      rw [Function.update_self]
      exact h.after.fits h.tried h.moves h.fits h.busy
  · rw [if_neg hself, if_neg hself]
    refine ⟨Iff.rfl, ?_⟩
    subst hstate
    exact sending_takes h.takes (fun d hd => h.elsewhere hd)
      (fun d hd => h.after.elsewhere h.tried h.channel hd) rfl rfl rfl hself

theorem comes (hstate : s' = { s.setPc t pc with words := s.words.setQueue c q }) (u n : Nat)
    (call : Call α) (a : Answer α) : s'.Ended u n call a ↔
      s.Ended u n call a ∨ u = t ∧ n = s.calls t ∧ pc.ended = some (call, a) := by
  have hpcs : s'.pcs = Function.update s.pcs t pc := by
    rw [hstate]
    rfl
  refine ended_comes hpcs ?_ ?_ h.runs.2
  · rw [hstate]
    rfl
  · rw [hstate]
    rfl

theorem keeps (hstate : s' = { s.setPc t pc with words := s.words.setQueue c q })
    (hr : ∀ r', r = some r' → answerOf (ctx.index k) r' = none) : s.Keeps s' := by
  intro u n call a hvoid
  refine (h.comes hstate u n call a).trans ?_
  exact or_iff_left fun hended => hvoid (h.after.void hr hended.2.2)

theorem ended (hstate : s' = { s.setPc t pc with words := s.words.setQueue c q })
    {r' : Reply (Item α)} {a : Answer α} (hr : r = some r')
    (ha : answerOf (ctx.index k) r' = some a) (u n : Nat) (call : Call α) (b : Answer α) :
    s'.Ended u n call b ↔
      s.Ended u n call b ∨ u = t ∧ n = s.calls t ∧ call = ctx.call ∧ b = a := by
  subst hr
  refine (h.comes hstate u n call b).trans ?_
  rw [h.after.answers ha, Option.some.injEq, Prod.mk.injEq, eq_comm (a := ctx.call),
    eq_comm (a := a)]

theorem sends (hstate : s' = { s.setPc t pc with words := s.words.setQueue c q }) {it : Item α}
    (hj : j = .put it true) (hr : r = some (.sent true)) (d : Nat) (it' : Item α) :
    s'.Sent d it' ↔ s.Sent d it' ∨ d = c ∧ it' = it := by
  have hended := h.ended hstate hr rfl
  have hfits := h.fits
  rw [hj] at hfits
  obtain ⟨hop, hcaller, hcall⟩ := Op.of_puts hfits
  constructor
  · rintro ⟨call, i, hi, hanswer⟩
    obtain hold | ⟨ht, hn, rfl, hdone⟩ := (hended ..).mp hanswer
    · exact .inl ⟨call, i, hi, hold⟩
    · cases hdone
      rw [h.tried, hop] at hi
      obtain ⟨rfl, hvalue⟩ := Op.send.inj (Option.some.inj hi)
      refine .inr ⟨rfl, Item.ext ?_ ?_ hvalue.symm⟩
      · exact ht.trans hcaller.symm
      · exact hn.trans hcall.symm
  · rintro (⟨call, i, hi, hold⟩ | ⟨rfl, rfl⟩)
    · exact ⟨call, i, hi, (hended ..).mpr (.inl hold)⟩
    · refine ⟨ctx.call, ctx.index k, ?_, (hended ..).mpr (.inr ⟨hcaller, hcall, rfl, rfl⟩)⟩
      rw [h.tried, hop]

theorem keeps_received (hstate : s' = { s.setPc t pc with words := s.words.setQueue c q })
    (hr : r = some (.sent true)) (d u n : Nat) (it : Item α) :
    s'.Received d u n it ↔ s.Received d u n it := by
  have hended := h.ended hstate hr rfl
  constructor
  · rintro ⟨call, i, hi, hanswer⟩
    obtain hold | ⟨-, -, -, hdone⟩ := (hended ..).mp hanswer
    · exact ⟨call, i, hi, hold⟩
    · cases hdone
  · rintro ⟨call, i, hi, hold⟩
    exact ⟨call, i, hi, (hended ..).mpr (.inl hold)⟩

theorem receives (hstate : s' = { s.setPc t pc with words := s.words.setQueue c q }) {it : Item α}
    (hj : j = .take) (hr : r = some (.taken it)) (d u n : Nat) (it' : Item α) :
    s'.Received d u n it' ↔
      s.Received d u n it' ∨ (d = c ∧ u = t ∧ n = s.calls t ∧ it' = it) := by
  have hended := h.ended hstate hr rfl
  have hfits := h.fits
  rw [hj] at hfits
  have hop := Op.of_takes hfits
  constructor
  · rintro ⟨call, i, hi, hanswer⟩
    obtain hold | ⟨ht, hn, rfl, hdone⟩ := (hended ..).mp hanswer
    · exact .inl ⟨call, i, hi, hold⟩
    · cases hdone
      rw [h.tried, hop] at hi
      cases hi
      exact .inr ⟨rfl, ht, hn, rfl⟩
  · rintro (⟨call, i, hi, hold⟩ | ⟨rfl, ht, hn, rfl⟩)
    · exact ⟨call, i, hi, (hended ..).mpr (.inl hold)⟩
    · refine ⟨ctx.call, ctx.index k, ?_, (hended ..).mpr (.inr ⟨ht, hn, rfl, rfl⟩)⟩
      rw [h.tried, hop]

theorem keeps_sent (hstate : s' = { s.setPc t pc with words := s.words.setQueue c q })
    {it : Item α} (hr : r = some (.taken it)) (d : Nat) (it' : Item α) :
    s'.Sent d it' ↔ s.Sent d it' := by
  have hended := h.ended hstate hr rfl
  constructor
  · rintro ⟨call, i, hi, hanswer⟩
    obtain hold | ⟨-, -, -, hdone⟩ := (hended ..).mp hanswer
    · exact ⟨call, i, hi, hold⟩
    · cases hdone
  · rintro ⟨call, i, hi, hold⟩
    exact ⟨call, i, hi, (hended ..).mpr (.inl hold)⟩

theorem step (htold : s.Told) (hsound : (s.accounts.places c).Sound)
    (hstate : s' = { s.setPc t pc with words := s.words.setQueue c q }) :
    Accounts.Step Item.caller Item.call s.accounts s'.accounts := by
  obtain ⟨hself, hother⟩ := places_setQueue hstate
  have hfresh := call_fresh htold h.runs.1 h.runs.2
  have hsound' : (s'.accounts.places c).Sound := by
    rw [hself]
    exact h.moves.sound hsound
  have hsending := h.sending hstate
  have hmoves := h.moves
  -- an attempt that does not put an element sends what it did
  have hsame : (∀ it, j = .put it true ↔ j' = .put it true) →
      ∀ d it, s'.Sending d it ↔ s.Sending d it := by
    intro hjob d it
    refine (hsending d it).2.trans (Iff.trans ?_ (hsending d it).1.symm)
    by_cases hmine : d = c ∧ it.caller = t
    · rw [if_pos hmine, if_pos hmine]
      exact (hjob it).symm
    · rw [if_neg hmine, if_neg hmine]
  have hplaces : q.places = (s.words.channels c).queue.places →
      ∀ d, s'.accounts.places d = s.accounts.places d := by
    intro hq d
    by_cases hd : d = c
    · rw [hd, hself, hq]
      rfl
    · exact hother d hd
  generalize hq : q.places = L' at hmoves hplaces
  cases hmoves with
  | same =>
    exact quiet_of_keeps (hplaces rfl) (hsame fun _ => Iff.rfl) (h.keeps hstate nofun)
  | full =>
    refine quiet_of_keeps (hplaces rfl) (hsame fun _ => iff_of_false nofun nofun) ?_
    refine h.keeps hstate ?_
    rintro r' ⟨⟩
    rfl
  | empty =>
    refine quiet_of_keeps (hplaces rfl) (hsame fun _ => iff_of_false nofun nofun) ?_
    refine h.keeps hstate ?_
    rintro r' ⟨⟩
    rfl
  | sent it =>
    obtain ⟨-, hcaller, -⟩ := Op.of_puts h.fits
    refine .sends c it (funext (hplaces rfl)) ?_ (fun d it' => ?_) (h.sends hstate rfl rfl)
      (h.keeps_received hstate rfl)
    · exact (hsending c it).1.mpr ((if_pos ⟨rfl, hcaller⟩).mpr rfl)
    · refine (hsending d it').2.trans ?_
      by_cases hmine : d = c ∧ it'.caller = t
      · rw [if_pos hmine]
        refine iff_of_false nofun ?_
        rintro ⟨hold, hne⟩
        have hjob := (hsending d it').1.mp hold
        rw [if_pos hmine, Job.put.injEq] at hjob
        exact hne ⟨hmine.1, hjob.1.symm⟩
      · rw [if_neg hmine]
        refine (and_iff_left ?_).symm
        rintro ⟨rfl, rfl⟩
        exact hmine ⟨rfl, hcaller⟩
  | puts x it hlast hopen =>
    obtain ⟨-, hcaller, hcall⟩ := Op.of_puts h.fits
    have hkeeps := h.keeps hstate nofun
    refine .puts c x it hsound' hlast ?_ ?_ hother (fun d it' => ?_) hkeeps.sent hkeeps.received
    · rintro d it' (hold | hsent) hsame
      · -- an attempt that has no place sends nothing
        have hjob := (hsending d it').1.mp hold
        split at hjob
        · cases hjob
        · rename_i hne
          refine absurd hold (not_sending ?_)
          rw [hsame, hcaller]
          exact h.elsewhere fun hd => hne ⟨hd, hsame.trans hcaller⟩
      · rw [hcall]
        exact hfresh.1 d it' hsent (hsame.trans hcaller)
    · rw [hself, hq, hcaller]
      rfl
    · refine (hsending d it').2.trans ?_
      by_cases hmine : d = c ∧ it'.caller = t
      · change _ ↔ s.Sending d it' ∨ _
        rw [if_pos hmine, (hsending d it').1, if_pos hmine, Job.put.injEq]
        refine ⟨fun heq => .inr ⟨hmine.1, heq.1.symm⟩, ?_⟩
        rintro (hjob | ⟨-, rfl⟩)
        · cases hjob
        · exact ⟨rfl, rfl⟩
      · rw [if_neg hmine]
        refine (or_iff_left ?_).symm
        rintro ⟨rfl, rfl⟩
        exact hmine ⟨rfl, hcaller⟩
  | claims x hfree hnext =>
    have hkeeps := h.keeps hstate nofun
    exact .claims c x t hsound' hfree (hself.trans hq) hother (hsame fun _ => Iff.rfl) hkeeps.sent
      hkeeps.received
  | gives x p it hput htaker hkept =>
    refine .gives c x t (s.calls t) it hsound' ⟨p, hput⟩ htaker hkept
      (fun n it' => hfresh.2 c n it') (fun y hy hy' htake hgiven => ?_) (hself.trans hq) hother
      (hsame fun _ => iff_of_false nofun nofun) (h.keeps_sent hstate rfl)
      (h.receives hstate rfl rfl)
    -- who is given an element has no other one
    have hplaces' : q.places = _ := hq
    have htakes := Queue.takes_of_held h.takes.reached (x := y) (c := t) ?_ ?_ ?_ h.takes.doing
    · cases htakes
    · rw [hplaces']
      exact hy'
    · rw [hplaces']
      exact htake
    · rw [hplaces', PlaceLog.setGiven_of_ne _ _ _ hy]
      exact hgiven

end Goes

theorem accounts_step (hcourse : Course s s') (htold : s.Told)
    (hbalanced : s.accounts.Balanced Item.caller Item.call) :
    Accounts.Step Item.caller Item.call s.accounts s'.accounts := by
  have hplaces : (∀ c, (s'.words.channels c).queue = (s.words.channels c).queue) →
      ∀ c, s'.accounts.places c = s.accounts.places c := fun hq c => congrArg Queue.places (hq c)
  cases hcourse with
  | within hpcs hwords hcalls hlog =>
    refine quiet_of_keeps (hplaces fun c => by rw [hwords]) (fun c it => ?_) fun u n call a _ => ?_
    · rw [State.Sending, State.Sending, hpcs, hwords, hcalls]
    · rw [State.Ended, State.Ended, hlog, hcalls, hpcs]
  | begins t pc hidle hrole hended hwords hpcs hcalls hlog =>
    refine quiet_of_keeps (hplaces fun c => by rw [hwords]) ?_ fun u n call a _ => ?_
    · refine sending_goes (fun c => ?_) hrole hpcs (fun c => by rw [hwords]) fun u hu => ?_
      · rw [hidle]
        rfl
      · rw [hcalls, Function.update_of_ne hu]
    · exact ended_begins hidle hended hpcs hcalls hlog
  | goes t pc hbusy hold hnew hended hpcs hqueues hcalls hlog =>
    refine quiet_of_keeps (hplaces hqueues) ?_ fun u n call a hvoid => ?_
    · exact sending_goes hold hnew hpcs hqueues fun u _ => by rw [hcalls]
    · refine ended_goes hpcs hcalls hlog ?_
      obtain hsame | ⟨hnone, hanswer⟩ := hended
      · rw [hsame]
      · refine iff_of_false (fun h => hvoid (hanswer call a h)) ?_
        rw [hnone]
        rintro ⟨⟩
  | finishes t call a hended hold hpcs hwords hcalls hlog =>
    refine quiet_of_keeps (hplaces fun c => by rw [hwords]) ?_ fun u n call' a' _ => ?_
    · exact sending_goes hold (fun _ => rfl) hpcs (fun c => by rw [hwords])
        fun u _ => by rw [hcalls]
    · exact ended_finishes hended hpcs hcalls hlog
  | enters t c k ctx op q j hpc hop hchannel hfits hj htakes hq hstate =>
    have hnone : (s.pcs t).ended = none := by
      rw [hpc]
      rfl
    have hold : ∀ d, (s.pcs t).role d = .out := fun d => by
      rw [hpc]
      rfl
    obtain ⟨hself, hother⟩ := places_setQueue hstate
    have hpcs : s'.pcs = Function.update s.pcs t (.trying ctx k .queue) := by
      rw [hstate]
      rfl
    have hcalls : s'.calls = s.calls := by
      rw [hstate]
      rfl
    have hchannels : s'.words.channels = (s.words.setQueue c q).channels := by
      rw [hstate]
    refine quiet_of_keeps (fun d => ?_) (fun d it => ?_) fun u n call a _ => ?_
    · by_cases hd : d = c
      · rw [hd, hself, hq]
        rfl
      · exact hother d hd
    · by_cases hmine : d = c ∧ it.caller = t
      · obtain ⟨rfl, rfl⟩ := hmine
        refine iff_of_false (fun hsending => ?_) (not_sending (hold d))
        refine hj it ((sending_iff ?_ ?_).mp hsending)
        · rw [hchannels, Words.setQueue_self]
          exact htakes.doing
        · rw [hpcs, hcalls, Function.update_self, Pc.role_queue hop]
          exact hfits
      · exact sending_takes htakes (fun e _ => hold e)
          (fun e he => role_elsewhere hop hchannel he) hpcs hchannels hcalls hmine
    · refine ended_goes hpcs hcalls (fun _ _ _ _ => by rw [hstate]; rfl) ?_
      rw [hnone]
      rfl
  | moves t c k ctx op pc q j j' r hgoes hstate =>
    exact hgoes.step htold (hbalanced.sound c) hstate

theorem balanced_new {w : Words α} (hw : w.New) :
    (State.new w).accounts.Balanced Item.caller Item.call := by
  have hnothing : ∀ t n call a, ¬(State.new w).Ended t n call a := by
    rintro t n call a (hlog | ⟨-, hpc⟩)
    · exact List.not_mem_nil hlog
    · cases hpc
  refine Accounts.balanced_of_empty (fun c => ?_) ?_ ?_ ?_
  · change (w.channels c).queue.places = _
    obtain ⟨cap, -, hqueue⟩ | ⟨size, -, hqueue⟩ := hw.queue c
    · rw [hqueue]
      rfl
    · rw [hqueue]
      rfl
  · rintro c it ⟨-, hrole, -⟩
    cases hrole
  · rintro c it ⟨call, i, -, hended⟩
    exact hnothing _ _ _ _ hended
  · rintro c t n it ⟨call, i, -, hended⟩
    exact hnothing _ _ _ _ hended

variable {calls : Call α → Prop} {ok : State α → Nat → Prop} {w : Words α}

theorem told_of_runs (hw : w.New) (h : Runs calls ok w s) : s.Told :=
  courses_of_runs hw (.new w) (fun _ _ _ _ hcourse htold => htold.course hcourse) h

theorem balanced_of_runs (hw : w.New) (h : Runs calls ok w s) :
    s.accounts.Balanced Item.caller Item.call := by
  have hboth : s.Told ∧ s.accounts.Balanced Item.caller Item.call := by
    refine courses_of_runs
      (P := fun s => s.Told ∧ s.accounts.Balanced Item.caller Item.call) hw
      ⟨.new w, balanced_new hw⟩ ?_ h
    rintro s s' - - hcourse ⟨htold, hbalanced⟩
    exact ⟨htold.course hcourse, hbalanced.step (accounts_step hcourse htold hbalanced)⟩
  exact hboth.2

end Steps

/-! ### What becomes of an element -/

def State.Put (s : State α) (c : Nat) (it : Item α) : Prop :=
  ∃ x, (s.words.channels c).queue.places.put x = some (it.caller, it)

def State.Queued (s : State α) (c : Nat) (it : Item α) : Prop :=
  ∃ x, (s.words.channels c).queue.places.put x = some (it.caller, it) ∧
    (s.words.channels c).queue.places.taker x = none

def State.Claimed (s : State α) (c t : Nat) (it : Item α) : Prop :=
  ∃ x, (s.words.channels c).queue.places.put x = some (it.caller, it) ∧
    (s.words.channels c).queue.places.taker x = some t

def State.Held (s : State α) (c t : Nat) (it : Item α) : Prop :=
  (s.pcs t).role c = .receives ∧
    ∃ x, (s.words.channels c).queue.places.put x = some (it.caller, it) ∧
      (s.words.channels c).queue.places.taker x = some t ∧
      (s.words.channels c).queue.places.given x = none

section Elements

variable {calls : Call α → Prop} {ok : State α → Nat → Prop} {w : Words α} {s : State α}
  {c t n : Nat} {it it' : Item α}

theorem State.Embedded.receives (h : s.Embedded) {x : Nat}
    (hput : (s.words.channels c).queue.places.put x ≠ none)
    (htaker : (s.words.channels c).queue.places.taker x = some t)
    (hgiven : (s.words.channels c).queue.places.given x = none) :
    (s.pcs t).role c = .receives := by
  obtain ⟨hreached, hjobs⟩ := h c
  obtain ⟨j, hdoing, hfits⟩ := hjobs t
  obtain rfl := Queue.takes_of_held hreached hput htaker hgiven hdoing
  cases hrole : (s.pcs t).role c with
  | receives => rfl
  | out =>
    rw [hrole] at hfits
    cases hfits
  | sends v =>
    rw [hrole] at hfits
    obtain ⟨done, hjob⟩ := hfits
    cases hjob

/-- An element that is received is received by one call, over the channel it was sent over. -/
theorem received_unique (h : s.accounts.Balanced Item.caller Item.call)
    (hreceived : s.Received c t n it) {d u m : Nat} (hreceived' : s.Received d u m it) :
    d = c ∧ u = t ∧ m = n := by
  obtain ⟨x, p, hx, -⟩ := h.received c t n it hreceived
  obtain ⟨y, q, hy, -⟩ := h.received d u m it hreceived'
  obtain ⟨rfl, -⟩ := h.unique d c y x q p it it hy hx ⟨rfl, rfl⟩
  obtain ⟨rfl, rfl⟩ := h.once d u t m n it hreceived' hreceived
  exact ⟨rfl, rfl, rfl⟩

theorem unreceived (h : s.accounts.Balanced Item.caller Item.call) {x p : Nat}
    (hx : (s.words.channels c).queue.places.put x = some (p, it))
    (hgiven : (s.words.channels c).queue.places.given x = none) (d u m : Nat) :
    ¬s.Received d u m it := by
  intro hreceived
  obtain ⟨y, q, hy, hgave⟩ := h.received d u m it hreceived
  obtain ⟨rfl, rfl⟩ := h.unique c d x y p q it it hx hy ⟨rfl, rfl⟩
  cases hgiven.symm.trans hgave

/-- Coroutine 1 finds an unbounded channel empty; then 7, 8 and 9 are sent, and it receives 7 and
has claimed 8. -/
theorem one_held : ∃ (w : Words Nat) (s : State Nat),
    w.New ∧ Runs (fun _ => True) (fun _ _ => True) w s ∧
      (s.Sent 0 ⟨0, 1, 7⟩ ∧ s.Sent 0 ⟨0, 2, 8⟩ ∧ s.Sent 0 ⟨0, 3, 9⟩) ∧
      s.Ended 1 1 (.once (.recv 0)) .refused ∧
      s.Received 0 1 2 ⟨0, 1, 7⟩ ∧ s.Held 0 1 ⟨0, 2, 8⟩ ∧ s.Queued 0 ⟨0, 3, 9⟩ := by
  let w : Words Nat := ⟨fun _ => ⟨.chain 2 ⟨.new, fun _ => .idle⟩, false⟩,
    fun _ => ⟨true, false⟩, fun _ => 0⟩
  have hw : w.New := ⟨fun _ => .inr ⟨2, le_rfl, rfl⟩, fun _ => rfl, fun _ => le_rfl⟩
  have hok : ∀ (t : Nat) (s : State Nat), (∀ c, s.pcs t ≠ .direct c) → True :=
    fun _ _ _ => trivial
  have h₀ : Unhindered (fun _ => True) (fun _ _ => True) w _ := unhindered_new
  have h₁ := h₀.make (t := 1) (by decide) (hok 1) (.once (.recv 0)) 6 (by decide +kernel) nofun trivial
  have h₂ := h₁.make (t := 0) (by decide) (hok 0) (.once (.send 0 7)) 8 (by decide +kernel) nofun trivial
  have h₃ := h₂.make (t := 0) (by decide) (hok 0) (.once (.send 0 8)) 8 (by decide +kernel) nofun trivial
  have h₄ := h₃.make (t := 0) (by decide) (hok 0) (.once (.send 0 9)) 12 (by decide +kernel) nofun trivial
  have h₅ := h₄.make (t := 1) (by decide) (hok 1) (.once (.recv 0)) 12 (by decide +kernel) nofun trivial
  have h₆ := h₅.make (t := 1) (by decide) (hok 1) (.once (.recv 0)) 6 (by decide +kernel) nofun trivial
  refine ⟨w, _, hw, h₆.runs, ⟨?_, ?_, ?_⟩, ?_, ?_, ?_, ?_⟩
  · exact ⟨.once (.send 0 7), 0, rfl, .inl (by decide +kernel)⟩
  · exact ⟨.once (.send 0 8), 0, rfl, .inl (by decide +kernel)⟩
  · exact ⟨.once (.send 0 9), 0, rfl, .inl (by decide +kernel)⟩
  · exact .inl (by decide +kernel)
  · exact ⟨.once (.recv 0), 0, rfl, .inl (by decide +kernel)⟩
  · exact ⟨by decide +kernel, 1, by decide +kernel, by decide +kernel, by decide +kernel⟩
  · exact ⟨2, by decide +kernel, by decide +kernel⟩

/-- An element that was sent over channel `c` waits there, or one receive that goes on holds it,
or one call has received it. -/
structure State.Accounted (s : State α) (c : Nat) (it : Item α) : Prop where
  somewhere : s.Queued c it ∨ (∃ t, s.Held c t it) ∨ ∃ t n, s.Received c t n it
  queued : ∀ d, s.Queued d it →
    d = c ∧ (∀ e t, ¬s.Held e t it) ∧ ∀ e t n, ¬s.Received e t n it
  held : ∀ d t, s.Held d t it →
    d = c ∧ (∀ e u, s.Held e u it → u = t) ∧ ∀ e u n, ¬s.Received e u n it
  received : ∀ d t n, s.Received d t n it →
    d = c ∧ ∀ e u m, s.Received e u m it → u = t ∧ m = n

theorem place_unique (h : s.accounts.Balanced Item.caller Item.call) {d x y p q : Nat}
    (hx : (s.words.channels c).queue.places.put x = some (p, it))
    (hy : (s.words.channels d).queue.places.put y = some (q, it)) : d = c ∧ y = x :=
  h.unique d c y x q p it it hy hx ⟨rfl, rfl⟩

theorem sent_accounted (hw : w.New) (h : Runs calls ok w s) (hsent : s.Sent c it) :
    s.Accounted c it := by
  have hbalanced := balanced_of_runs hw h
  have hsound := hbalanced.sound c
  obtain ⟨x, hx⟩ := hbalanced.placed c it (.inr hsent)
  constructor
  case somewhere =>
    obtain hqueued | ⟨x, t, hx, htaker, hgiven⟩ | hreceived := hbalanced.whereabouts hsent
    · exact .inl hqueued
    · have hput : (s.words.channels c).queue.places.put x ≠ none := fun hnone => by
        cases hnone.symm.trans hx
      have hrole := (embedded_of_runs hw h).receives hput htaker hgiven
      exact .inr (.inl ⟨t, hrole, x, hx, htaker, hgiven⟩)
    · exact .inr (.inr hreceived)
  case queued =>
    rintro d ⟨y, hy, hfree⟩
    obtain ⟨rfl, rfl⟩ := place_unique hbalanced hx hy
    refine ⟨rfl, ?_, unreceived hbalanced hx ?_⟩
    · rintro e t ⟨-, z, hz, htaker, -⟩
      obtain ⟨rfl, rfl⟩ := place_unique hbalanced hx hz
      cases hfree.symm.trans htaker
    · by_contra hgave
      obtain ⟨u, hu⟩ := Option.ne_none_iff_exists'.mp hgave
      cases hfree.symm.trans (hsound.given y u hu).1
  case held =>
    rintro d t ⟨-, y, hy, htaker, hgiven⟩
    obtain ⟨rfl, rfl⟩ := place_unique hbalanced hx hy
    refine ⟨rfl, ?_, unreceived hbalanced hx hgiven⟩
    rintro e u ⟨-, z, hz, htaker', -⟩
    obtain ⟨rfl, rfl⟩ := place_unique hbalanced hx hz
    exact Option.some.inj (htaker'.symm.trans htaker)
  case received =>
    intro d t n hn
    obtain ⟨y, q, hy, -⟩ := hbalanced.received d t n it hn
    refine ⟨(place_unique hbalanced hx hy).1, fun e u m hm => ?_⟩
    exact (received_unique hbalanced hn hm).2

/-- The three, wherever they are. -/
theorem sent_accounted_three : ∃ s : State Nat,
    s.Received 0 1 2 ⟨0, 1, 7⟩ ∧ s.Held 0 1 ⟨0, 2, 8⟩ ∧ s.Queued 0 ⟨0, 3, 9⟩ ∧
      s.Accounted 0 ⟨0, 1, 7⟩ ∧ s.Accounted 0 ⟨0, 2, 8⟩ ∧ s.Accounted 0 ⟨0, 3, 9⟩ := by
  obtain ⟨w, s, hw, h, ⟨hfirst, hsecond, hthird⟩, -, hreceived, hheld, hqueued⟩ := one_held
  exact ⟨s, hreceived, hheld, hqueued, sent_accounted hw h hfirst, sent_accounted hw h hsecond,
    sent_accounted hw h hthird⟩

/-- A call that does not report that it sent something has put nothing into any channel, and
whatever a coroutine has claimed, a call of it reports, unless it is still at the attempt that
claimed it. -/
theorem unreported_moved_nothing (hw : w.New) (h : Runs calls ok w s) :
    (∀ t n call a, s.Ended t n call a → (∀ i, a ≠ .done i (.sent true)) →
      ∀ c v, ¬s.Put c ⟨t, n, v⟩) ∧
      ∀ c t it, s.Claimed c t it → s.Held c t it ∨ ∃ n, s.Received c t n it := by
  have htold := told_of_runs hw h
  have hbalanced := balanced_of_runs hw h
  constructor
  · rintro t n call a hended ha c v ⟨x, hput⟩
    obtain ⟨hcall, hrole, -⟩ | ⟨call', i, -, hsent⟩ := (hbalanced.owner c x _ _ hput).2
    · obtain hlog | ⟨-, hpc⟩ := hended
      · obtain hlt | ⟨-, hidle⟩ := htold.past _ _ _ _ hlog
        · exact absurd hcall (Nat.ne_of_lt hlt)
        · change (s.pcs t).role c = _ at hrole
          rw [hidle] at hrole
          cases hrole
      · change (s.pcs t).role c = _ at hrole
        cases hpcs : s.pcs t with
        | trying ctx k p =>
          rw [hpcs] at hpc
          cases hpc
        | idle | draining | pausing | waiting | direct | waking =>
          rw [hpcs] at hrole
          cases hrole
    · exact ha i (htold.unique hended hsent).2
  · rintro c t it ⟨x, hput, htaker⟩
    cases hgiven : (s.words.channels c).queue.places.given x with
    | none =>
      refine .inl ⟨(embedded_of_runs hw h).receives (fun hnone => ?_) htaker hgiven, x, hput, htaker,
        hgiven⟩
      cases hnone.symm.trans hput
    | some u =>
      obtain rfl : t = u :=
        Option.some.inj (htaker.symm.trans ((hbalanced.sound c).given x u hgiven).1)
      exact .inr (hbalanced.given c x _ it t hput hgiven)

/-- The `try_recv` that found nothing, and what coroutine 1 has claimed since. -/
theorem unreported_moved_nothing_held : ∃ s : State Nat,
    s.Ended 1 1 (.once (.recv 0)) .refused ∧ s.Received 0 1 2 ⟨0, 1, 7⟩ ∧
      s.Held 0 1 ⟨0, 2, 8⟩ ∧
      (∀ t n call a, s.Ended t n call a → (∀ i, a ≠ .done i (.sent true)) →
        ∀ c v, ¬s.Put c ⟨t, n, v⟩) ∧
      ∀ c t it, s.Claimed c t it → s.Held c t it ∨ ∃ n, s.Received c t n it := by
  obtain ⟨w, s, hw, h, -, hended, hreceived, hheld, -⟩ := one_held
  exact ⟨s, hended, hreceived, hheld, unreported_moved_nothing hw h⟩

/-- What a coroutine puts into a channel is claimed in that order, and who receives two elements
of it receives the earlier one first. -/
theorem received_in_order (hw : w.New) (h : Runs calls ok w s) (hput : s.Put c it)
    (hput' : s.Put c it') (hcaller : it.caller = it'.caller) (hcall : it.call < it'.call) :
    (s.Queued c it → s.Queued c it') ∧
      ∀ t n m, s.Received c t n it → s.Received c t m it' → n < m := by
  have hbalanced := balanced_of_runs hw h
  obtain ⟨x, hx⟩ := hput
  obtain ⟨y, hy⟩ := hput'
  have hlt := hbalanced.ordered c x y _ _ it it' hx hy hcaller hcall
  refine ⟨?_, fun t n m hn hm => hbalanced.turns c x y _ _ t n m it it' hx hy hn hm hlt⟩
  rintro ⟨x', hx', hfree⟩
  obtain ⟨-, rfl⟩ := hbalanced.unique c c x' x _ _ it it hx' hx ⟨rfl, rfl⟩
  refine ⟨y, hy, ?_⟩
  by_contra htaken
  refine (hbalanced.sound c).ordered x' y hlt (fun hnone => ?_) htaken hfree
  cases hnone.symm.trans hx

/-- Two elements sent one after the other. -/
theorem received_in_order_two : ∃ s : State Nat, s.Put 0 ⟨0, 1, 7⟩ ∧ s.Put 0 ⟨0, 2, 8⟩ ∧
    (s.Queued 0 ⟨0, 1, 7⟩ → s.Queued 0 ⟨0, 2, 8⟩) ∧
      ∀ t n m, s.Received 0 t n ⟨0, 1, 7⟩ → s.Received 0 t m ⟨0, 2, 8⟩ → n < m := by
  let w : Words Nat := ⟨fun _ => ⟨.chain 2 ⟨.new, fun _ => .idle⟩, false⟩,
    fun _ => ⟨true, false⟩, fun _ => 0⟩
  have hw : w.New := ⟨fun _ => .inr ⟨2, le_rfl, rfl⟩, fun _ => rfl, fun _ => le_rfl⟩
  have h₀ : Runs (fun _ => True) (fun _ _ => True) w (.new w) := .start
  have h₁ := h₀.free (.begin 0 (.once (.send 0 7)) 0 rfl nofun trivial)
  have h₂ := h₁.free (.attempt 0 _ 0 (.send 0 7) .closed false rfl rfl)
  have h₃ := h₂.free (.attempt 0 _ 0 (.send 0 7) .enter false rfl rfl)
  have h₄ := h₃.free (.attempt 0 _ 0 (.send 0 7) .queue false rfl rfl)
  have h₅ := h₄.free (.attempt 0 _ 0 (.send 0 7) .queue false rfl rfl)
  have h₆ := h₅.free (.attempt 0 _ 0 (.send 0 7) .queue false rfl rfl)
  have h₇ := h₆.free (.attempt 0 _ 0 (.send 0 7) .queue false rfl rfl)
  have h₈ := h₇.free (.peek 0 _ (.recv 0) (some 1) [] _ rfl)
  have h₉ := h₈.free (.finish 0 _ _ rfl fun _ => rfl)
  have h₁₀ := h₉.free (.begin 0 (.once (.send 0 8)) 0 rfl nofun trivial)
  have h₁₁ := h₁₀.free (.attempt 0 _ 0 (.send 0 8) .closed false rfl rfl)
  have h₁₂ := h₁₁.free (.attempt 0 _ 0 (.send 0 8) .enter false rfl rfl)
  have h₁₃ := h₁₂.free (.attempt 0 _ 0 (.send 0 8) .queue false rfl rfl)
  have h₁₄ := h₁₃.free (.attempt 0 _ 0 (.send 0 8) .queue false rfl rfl)
  exact ⟨_, ⟨0, rfl⟩, ⟨1, rfl⟩, received_in_order hw h₁₄ ⟨0, rfl⟩ ⟨1, rfl⟩ rfl (by decide)⟩

end Elements

end Uvent.Sync.Primitives
