import Uvent.Sync.ChannelQueues
import Uvent.Sync.Semaphore

/-!
# What a step does to the channels

A step of a program begins or ends a call, or is one of a coroutine in the queue of a channel,
or has nothing to do with the queues.
-/

namespace Uvent.Sync.Primitives

open Uvent.Lib Uvent.Queue Uvent.Sync.Suspension

variable {α : Type}

def Answer.Void : Answer α → Prop
  | .done _ (.sent true) | .done _ (.received _) => False
  | _ => True

def answerOf (i : Nat) : Reply (Item α) → Option (Answer α)
  | .sent true => some (.done i (.sent true))
  | .taken it => some (.done i (.received (some it)))
  | _ => none

def Ctx.After (ctx : Ctx α) (k : Nat) (pc : Pc α) : Option (Reply (Item α)) → Prop
  | none => pc = .trying ctx k .queue
  | some r => (∀ c, pc.role c = .out) ∧ match answerOf (ctx.index k) r with
      | some a => pc.ended = some (ctx.call, a)
      | none => ∀ call a, pc.ended = some (call, a) → call = ctx.call ∧ a.Void

structure Goes (s : State α) (t c k : Nat) (ctx : Ctx α) (op : Op α) (pc : Pc α)
    (q : Queue (Item α)) (j j' : Job (Item α)) (r : Option (Reply (Item α))) : Prop where
  trying : s.pcs t = .trying ctx k .queue
  tried : ctx.call.ops[ctx.index k]? = some op
  channel : op.channel .queue = some c
  fits : (op.role c).Fits t (s.calls t) j
  busy : j ≠ .rest
  doing : (s.words.channels c).queue.Doing t j
  takes : (s.words.channels c).queue.Takes t q j'
  moves : (s.words.channels c).queue.places.Moves (s.words.channels c).queue.Sharp t j r
    q.places j'
  after : ctx.After k pc r

/-- What a step does, as far as the channels and the answers of the calls are concerned. -/
inductive Course (s s' : State α) : Prop where
  | within (hpcs : s'.pcs = s.pcs) (hwords : s'.words = s.words) (hcalls : s'.calls = s.calls)
      (hlog : s'.log = s.log)
  | begins (t : Nat) (pc : Pc α) (hidle : s.pcs t = .idle) (hrole : ∀ c, pc.role c = .out)
      (hended : pc.ended = none) (hwords : s'.words = s.words)
      (hpcs : s'.pcs = Function.update s.pcs t pc)
      (hcalls : s'.calls = Function.update s.calls t (s.calls t + 1)) (hlog : s'.log = s.log)
  | goes (t : Nat) (pc : Pc α) (hbusy : s.pcs t ≠ .idle) (hold : ∀ c, (s.pcs t).role c = .out)
      (hnew : ∀ c, pc.role c = .out)
      (hended : pc.ended = (s.pcs t).ended ∨
        (s.pcs t).ended = none ∧ ∀ call a, pc.ended = some (call, a) → a.Void)
      (hpcs : s'.pcs = Function.update s.pcs t pc)
      (hqueues : ∀ c, (s'.words.channels c).queue = (s.words.channels c).queue)
      (hcalls : s'.calls = s.calls)
      (hlog : ∀ u n call a, .returned u n call a ∈ s'.log ↔ .returned u n call a ∈ s.log)
  | finishes (t : Nat) (call : Call α) (a : Answer α) (hended : (s.pcs t).ended = some (call, a))
      (hold : ∀ c, (s.pcs t).role c = .out) (hpcs : s'.pcs = Function.update s.pcs t .idle)
      (hwords : s'.words = s.words) (hcalls : s'.calls = s.calls)
      (hlog : s'.log = .returned t (s.calls t) call a :: s.log)
  | enters (t c k : Nat) (ctx : Ctx α) (op : Op α) (q : Queue (Item α)) (j : Job (Item α))
      (hpc : s.pcs t = .trying ctx k .enter) (hop : ctx.call.ops[ctx.index k]? = some op)
      (hchannel : op.channel .queue = some c) (hfits : (op.role c).Fits t (s.calls t) j)
      (hj : ∀ it, j ≠ .put it true)
      (htakes : (s.words.channels c).queue.Takes t q j)
      (hplaces : q.places = (s.words.channels c).queue.places)
      (hstate : s' = { s.setPc t (.trying ctx k .queue) with words := s.words.setQueue c q })
  | moves (t c k : Nat) (ctx : Ctx α) (op : Op α) (pc : Pc α) (q : Queue (Item α))
      (j j' : Job (Item α)) (r : Option (Reply (Item α))) (hgoes : Goes s t c k ctx op pc q j j' r)
      (hstate : s' = { s.setPc t pc with words := s.words.setQueue c q })

section Steps

variable {s s' : State α} {t k : Nat} {ctx : Ctx α}

theorem failed_void {call : Call α} {a : Answer α} (h : (ctx.failed k).ended = some (call, a)) :
    call = ctx.call ∧ a.Void := by
  rw [Ctx.failed] at h
  split at h
  · rw [Answered.attempt_ended] at h
    cases h
  · split at h <;> cases h
    exact ⟨rfl, trivial⟩

theorem afterSend_after (w : Words α) (c : Nat) (v : α) {r : Option (Reply (Item α))}
    (hr : ∀ it, r ≠ some (.taken it)) : ctx.After k (ctx.afterSend w k c v r) r := by
  have hfailed : ∀ next, (∀ d, ((ctx.settleOp w (.send c v) next).failed k).role d = .out) ∧
      ∀ call a, ((ctx.settleOp w (.send c v) next).failed k).ended = some (call, a) →
        call = ctx.call ∧ a.Void := by
    refine fun next => ⟨fun d => Ctx.role_failed _ k d, fun call a h => ?_⟩
    rw [← (ctx.settleOp_call w (.send c v) next).1]
    exact failed_void h
  cases r with
  | none => rfl
  | some r =>
    cases r with
    | sent ok =>
      cases ok with
      | true => exact ⟨fun _ => rfl, rfl⟩
      | false => exact hfailed .fail
    | empty => exact hfailed .fail
    | taken it => exact absurd rfl (hr it)

theorem afterRecv_after (w : Words α) (c : Nat) {r : Option (Reply (Item α))}
    (hr : r ≠ some (.sent true)) : ctx.After k (ctx.afterRecv w k c r) r := by
  have hfailed : (∀ d, (if ctx.call.full then
      Pc.trying (ctx.settleOp w (.recv c) (.more .drainedClosed)) k .drainedClosed
      else (ctx.settleOp w (.recv c) .fail).failed k).role d = .out) ∧
      ∀ call a, (if ctx.call.full then
        Pc.trying (ctx.settleOp w (.recv c) (.more .drainedClosed)) k .drainedClosed
        else (ctx.settleOp w (.recv c) .fail).failed k).ended = some (call, a) →
        call = ctx.call ∧ a.Void := by
    split
    · exact ⟨fun _ => rfl, fun _ _ h => by cases h⟩
    · refine ⟨fun d => Ctx.role_failed _ k d, fun call a h => ?_⟩
      rw [← (ctx.settleOp_call w (.recv c) .fail).1]
      exact failed_void h
  cases r with
  | none => rfl
  | some r =>
    cases r with
    | sent ok =>
      cases ok with
      | true => exact absurd rfl hr
      | false => exact hfailed
    | empty => exact hfailed
    | taken it => exact ⟨fun _ => rfl, rfl⟩

/-- What a party is told fits its job. -/
theorem reply_of_moves {sharp : Prop} {L L' : PlaceLog Nat (Item α)} {j j' : Job (Item α)}
    {r : Option (Reply (Item α))} (h : L.Moves sharp t j r L' j') :
    (j = .take → r ≠ some (.sent true)) ∧
      ∀ it done, j = .put it done → ∀ x, r ≠ some (.taken x) := by
  cases h with
  | same | puts | claims => exact ⟨fun _ => nofun, fun _ _ _ _ => nofun⟩
  | sent | full => exact ⟨nofun, fun _ _ _ _ => nofun⟩
  | empty | gives => exact ⟨fun _ => nofun, nofun⟩

theorem course_queue (h : s.Embedded) {c : Nat} {op : Op α}
    (hpc : s.pcs t = .trying ctx k .queue) (hop : ctx.call.ops[ctx.index k]? = some op)
    (hchannel : op.channel .queue = some c) (spurious : Bool) :
    Course s (s.attempt t ctx k op .queue spurious) := by
  obtain ⟨hreached, hjobs⟩ := h c
  obtain ⟨j, hdoing, hfits⟩ := hjobs t
  rw [hpc, Pc.role_queue hop] at hfits
  cases op with
  | send d v =>
    obtain rfl : d = c := Option.some.inj hchannel
    have hrole : (Op.send d v).role d = .sends v := if_pos rfl
    rw [hrole] at hfits
    obtain ⟨done, rfl⟩ := hfits
    obtain ⟨j', r, htakes, hr, hmoves⟩ := Queue.step_moves hreached hdoing nofun spurious
    have hreply := (reply_of_moves hmoves).2 _ _ rfl
    refine .moves t d k ctx (.send d v) _ _ _ j' r ⟨hpc, hop, rfl, ?_, (by rintro ⟨⟩),
      hdoing, htakes, hmoves, afterSend_after s.words d v hreply⟩ (attempt_send hr)
    rw [hrole]
    exact ⟨done, rfl⟩
  | recv d =>
    obtain rfl : d = c := Option.some.inj hchannel
    have hrole : (Op.recv d : Op α).role d = .receives := if_pos rfl
    rw [hrole] at hfits
    obtain rfl : j = .take := hfits
    obtain ⟨j', r, htakes, hr, hmoves⟩ := Queue.step_moves hreached hdoing nofun spurious
    have hreply := (reply_of_moves hmoves).1 rfl
    refine .moves t d k ctx (.recv d) _ _ _ j' r ⟨hpc, hop, rfl, ?_, (by rintro ⟨⟩),
      hdoing, htakes, hmoves, afterRecv_after s.words d hreply⟩ (attempt_recv hr)
    rw [hrole]
    rfl
  | wait | acquire | sleep => cases hchannel

theorem course_enter (h : s.Embedded) {c : Nat} {op : Op α}
    (hpc : s.pcs t = .trying ctx k .enter) (hop : ctx.call.ops[ctx.index k]? = some op)
    (hchannel : op.channel .enter = some c) (spurious : Bool) :
    Course s (s.attempt t ctx k op .enter spurious) := by
  obtain ⟨hreached, hjobs⟩ := h c
  obtain ⟨j, hdoing, hfits⟩ := hjobs t
  rw [hpc] at hfits
  obtain rfl : j = .rest := hfits
  cases op with
  | send d v =>
    obtain rfl : d = c := Option.some.inj hchannel
    obtain ⟨htakes, hplaces⟩ := Queue.enqueue_takes hreached hdoing ⟨t, s.calls t, v⟩
    refine .enters t d k ctx (.send d v) _ _ hpc hop rfl ?_ (fun _ h => by cases h) htakes hplaces
      (attempt_enterSend v)
    rw [show (Op.send d v).role d = .sends v from if_pos rfl]
    exact ⟨false, rfl⟩
  | recv d =>
    obtain rfl : d = c := Option.some.inj hchannel
    obtain ⟨htakes, hplaces⟩ := Queue.dequeue_takes hreached hdoing
    refine .enters t d k ctx (.recv d) _ _ hpc hop rfl ?_ (fun _ h => by cases h) htakes hplaces
      attempt_enterRecv
    rw [show (Op.recv d : Op α).role d = .receives from if_pos rfl]
    rfl
  | wait | acquire | sleep => cases hchannel

theorem entries_returned {w : Words α} {op : Op α} {log : List (Entry α)} {u n m : Nat}
    {call : Call α} {a : Answer α} :
    .returned u n call a ∈ op.entries t m w ++ log ↔ .returned u n call a ∈ log := by
  rw [List.mem_append]
  refine or_iff_right fun h => ?_
  cases op with
  | wait e =>
    rw [Op.entries] at h
    split at h
    · cases h
    · cases List.mem_singleton.mp h
  | acquire m => cases List.mem_singleton.mp h
  | send | recv | sleep => cases h

theorem course_apart {op : Op α} {p : TryPc} (hpc : s.pcs t = .trying ctx k p)
    (hop : ctx.call.ops[ctx.index k]? = some op) (hchannel : op.channel p = none)
    (spurious : Bool) : Course s (s.attempt t ctx k op p spurious) := by
  have hapart := op.tryStep_apart t (s.calls t) ctx.call.full spurious
    ((s.waits.coros t).sleepers (ctx.index k)).timer.fired s.words hchannel
  have hattempted := s.attempted t ctx k op p spurious
  generalize s.attempt t ctx k op p spurious = s' at hattempted
  generalize op.tryStep t (s.calls t) ctx.call.full spurious
    ((s.waits.coros t).sleepers (ctx.index k)).timer.fired s.words p = next at hapart hattempted
  have hbusy : s.pcs t ≠ .idle := by
    rw [hpc]
    nofun
  have hended : (s.pcs t).ended = none := by
    rw [hpc]
    rfl
  have hout : p = .queue → ∀ c, op.role c = .out := by
    rintro rfl c
    exact Op.role_of_channel (by rw [hchannel]; nofun)
  have hold : ∀ c, (s.pcs t).role c = .out := by
    intro c
    rw [hpc]
    by_cases hp : p = .queue
    · have hrole := hout hp c
      subst hp
      rwa [Pc.role_queue hop]
    · exact Pc.role_of_ne hp
  have hqueues : ∀ c, (next.1.channels c).queue = (s.words.channels c).queue := by
    rw [hapart.channels]
    exact fun _ => rfl
  cases hattempted with
  | more p' hnext =>
    refine .goes t _ hbusy hold (fun c => ?_) (.inr ⟨hended, fun _ _ h => by cases h⟩) rfl
      hqueues rfl fun _ _ _ _ => Iff.rfl
    by_cases hp' : p' = .queue
    · subst hp'
      have hrole := hout (hapart.queue hnext) c
      obtain ⟨hcall, hstart⟩ := ctx.settleOp_call s.words op (.more .queue)
      refine (Pc.role_queue ?_).trans hrole
      rw [Ctx.index, hcall, hstart]
      exact hop
    · exact Pc.role_of_ne hp'
  | fail hnext =>
    refine .goes t _ hbusy hold (fun c => Ctx.role_failed _ k c)
      (.inr ⟨hended, fun call a h => ?_⟩) rfl hqueues rfl fun _ _ _ _ => Iff.rfl
    exact (failed_void h).2
  | done r wake hnext =>
    refine .goes t _ hbusy hold (fun c => rfl) (.inr ⟨hended, fun call a h => ?_⟩) rfl
      hqueues rfl fun _ _ _ _ => entries_returned
    obtain ⟨hsent, hreceived⟩ := hapart.answer r wake hnext
    cases h
    cases r with
    | sent ok =>
      cases ok with
      | true => exact absurd rfl hsent
      | false => trivial
    | received out => exact absurd rfl (hreceived out)
    | drained | passed => trivial

/-- Coroutine `t` goes on, and has no answer behind it that sends or receives. -/
theorem course_goes {old p : Pc α} (hpc : s.pcs t = old) (hbusy : old ≠ .idle)
    (hold : ∀ c, old.role c = .out) (hended : old.ended = none) (hnew : ∀ c, p.role c = .out)
    (hvoid : ∀ call a, p.ended = some (call, a) → a.Void)
    (hpcs : s'.pcs = Function.update s.pcs t p)
    (hqueues : ∀ c, (s'.words.channels c).queue = (s.words.channels c).queue)
    (hcalls : s'.calls = s.calls)
    (hlog : ∀ u n call a, .returned u n call a ∈ s'.log ↔ .returned u n call a ∈ s.log) :
    Course s s' := by
  subst hpc
  exact .goes t p hbusy hold hnew (.inr ⟨hended, hvoid⟩) hpcs hqueues hcalls hlog

theorem course_of_step {calls : Call α → Prop} {who : Option Nat} (h : s.Embedded)
    (hstep : Step calls s who s') : Course s s' := by
  cases hstep with
  | begin t call start hpc _ _ =>
    refine .begins t _ hpc (fun c => ?_) ?_ rfl rfl rfl rfl
    · split
      · rfl
      · exact Ctx.role_attempt _ 0 c
    · split
      · rfl
      · exact Answered.attempt_ended _ 0
  | attempt t c k op p spurious hpc hop =>
    cases hchannel : op.channel p with
    | none => exact course_apart hpc hop hchannel spurious
    | some ch =>
      have hp : p = .enter ∨ p = .queue := by
        cases op with
        | send | recv =>
          cases p with
          | enter => exact .inl rfl
          | queue => exact .inr rfl
          | _ => cases hchannel
        | _ => cases hchannel
      obtain rfl | rfl := hp
      · exact course_enter h hpc hop hchannel spurious
      · exact course_queue h hpc hop hchannel spurious
  | drain t c cs k p alive enqFirst hpc _ =>
    obtain ⟨pc, hdrain, hcases⟩ := s.drain_cases t c cs k p alive enqFirst
    rw [hdrain]
    cases hcases with
    | closed | goes | drained | alive | waits =>
      exact course_goes hpc nofun (fun _ => rfl) rfl (fun _ => rfl) (fun _ _ h => by cases h) rfl
        (fun _ => rfl) rfl fun _ _ _ _ => Iff.rfl
    | scanned =>
      exact course_goes hpc nofun (fun _ => rfl) rfl (fun _ => rfl)
        (fun _ _ h => by cases h; trivial) rfl (fun _ => rfl) rfl fun _ _ _ _ => Iff.rfl
  | pause t c w hpc _ =>
    exact course_goes hpc nofun (fun _ => rfl) rfl (fun _ => rfl) (fun _ _ h => by cases h) rfl
      (fun _ => rfl) rfl fun _ _ _ _ => Iff.rfl
  | check | inner | loadFired | finalize => exact .within rfl rfl rfl rfl
  | load t c w k l p enqFirst hpc _ _ =>
    obtain ⟨p', hload⟩ | ⟨b, hload⟩ := s.load_cases t c w k l p enqFirst
    · rw [hload]
      exact course_goes hpc nofun (fun _ => rfl) rfl (fun _ => rfl) (fun _ _ h => by cases h) rfl
        (fun _ => rfl) rfl fun _ _ _ _ => Iff.rfl
    · rw [hload]
      refine course_goes (p := .waiting (if b then c.settle l else c) w .first) hpc nofun
        (fun _ => rfl) rfl (fun _ => rfl) (fun _ _ h => by cases h) rfl (fun _ => rfl) rfl
        fun _ _ _ _ => Iff.rfl
  | answer t c w p start hpc _ =>
    refine course_goes hpc nofun (fun _ => rfl) rfl (fun ch => ?_) (fun call a hx => ?_) rfl
      (fun _ => rfl) rfl fun _ _ _ _ => Iff.rfl
    · split
      · exact Ctx.role_attempt _ 0 ch
      · rfl
    · split at hx
      · rw [Answered.attempt_ended] at hx
        cases hx
      · cases hx
        trivial
  | peek t c l count rest a hpc =>
    have hbusy : s.pcs t ≠ .idle := by
      rw [hpc]
      nofun
    refine .goes t _ hbusy (fun _ => by rw [hpc]; rfl) (fun ch => ?_) (.inl ?_) rfl
      (fun _ => rfl) rfl fun _ _ _ _ => Iff.rfl
    · split <;> rfl
    · rw [hpc]
      split <;> rfl
  | wake t c l count rest a hpc =>
    have hbusy : s.pcs t ≠ .idle := by
      rw [hpc]
      nofun
    refine .goes t _ hbusy (fun _ => by rw [hpc]; rfl) (fun _ => rfl) (.inl ?_) rfl
      (fun _ => rfl) rfl fun _ _ _ _ => Iff.rfl
    rw [hpc]
    rfl
  | direct t c hpc =>
    have hdirected := s.directed t c
    generalize s.direct t c = s' at hdirected
    cases hdirected with
    | nothing | reset =>
      exact course_goes hpc nofun (fun _ => rfl) rfl (fun _ => rfl)
        (fun _ _ h => by cases h; trivial) rfl (fun _ => rfl) rfl fun _ _ _ _ => Iff.rfl
    | close ch =>
      refine course_goes hpc nofun (fun _ => rfl) rfl (fun _ => rfl)
        (fun _ _ h => by cases h; trivial) rfl (fun d => ?_) rfl fun _ _ _ _ => Iff.rfl
      change ((s.words.close ch).channels d).queue = _
      by_cases hd : d = ch
      · rw [hd, Words.close_self]
      · rw [Words.close_of_ne hd]
    | set | release =>
      refine course_goes hpc nofun (fun _ => rfl) rfl (fun _ => rfl)
        (fun _ _ h => by cases h; trivial) rfl (fun _ => rfl) rfl fun _ _ _ _ => ?_
      exact List.mem_cons.trans (or_iff_right nofun)
  | finish t c a hpc _ =>
    refine .finishes t c.call a ?_ (fun _ => ?_) rfl rfl rfl rfl
    · rw [hpc]
      rfl
    · rw [hpc]
      rfl

theorem fits_of_moves {sharp : Prop} {L L' : PlaceLog Nat (Item α)} {j j' : Job (Item α)}
    {r : Option (Reply (Item α))} {n : Nat} {role : Role α} (h : L.Moves sharp t j r L' j')
    (hfits : role.Fits t n j) (hbusy : j ≠ .rest) :
    if r = none then role.Fits t n j' else j' = .rest := by
  cases h with
  | same => exact (if_pos rfl).mpr hfits
  | puts x v =>
    refine (if_pos rfl).mpr ?_
    cases role with
    | out => cases hfits
    | sends v =>
      obtain ⟨done, hjob⟩ := hfits
      cases hjob
      exact ⟨true, rfl⟩
    | receives => cases hfits
  | claims => exact (if_pos rfl).mpr hfits
  | sent | full | empty | gives => exact (if_neg nofun).mpr rfl

theorem role_elsewhere {c d : Nat} {op : Op α} (hop : ctx.call.ops[ctx.index k]? = some op)
    (hchannel : op.channel .queue = some c) (hd : d ≠ c) :
    (Pc.trying ctx k .queue).role d = .out := by
  rw [Pc.role_queue hop]
  refine Op.role_of_channel ?_
  rw [hchannel]
  exact fun h => hd (Option.some.inj h).symm

theorem Op.of_puts {n c : Nat} {op : Op α} {it : Item α} {done : Bool}
    (h : (op.role c).Fits t n (.put it done)) :
    op = .send c it.value ∧ it.caller = t ∧ it.call = n := by
  have hsends : ∀ v, (Role.sends v).Fits t n (.put it done) →
      it.value = v ∧ it.caller = t ∧ it.call = n := by
    rintro v ⟨done', hjob⟩
    obtain ⟨rfl, -⟩ := Job.put.inj hjob
    exact ⟨rfl, rfl, rfl⟩
  cases op with
  | send d v =>
    rw [Op.role] at h
    split at h
    · rename_i hd
      obtain ⟨rfl, hit⟩ := hsends v h
      exact ⟨by rw [hd], hit⟩
    · cases h
  | recv d =>
    rw [Op.role] at h
    split at h <;> cases h
  | wait | acquire | sleep => cases h

theorem Op.of_takes {n c : Nat} {op : Op α} (h : (op.role c).Fits t n .take) : op = .recv c := by
  cases op with
  | recv d =>
    rw [Op.role] at h
    split at h
    · rename_i hd
      rw [hd]
    · cases h
  | send d v =>
    rw [Op.role] at h
    split at h
    · obtain ⟨done, hjob⟩ := h
      cases hjob
    · cases h
  | wait | acquire | sleep => cases h

namespace Ctx.After

variable {pc : Pc α} {r : Option (Reply (Item α))}

theorem elsewhere {c d : Nat} {op : Op α} (h : ctx.After k pc r)
    (hop : ctx.call.ops[ctx.index k]? = some op) (hchannel : op.channel .queue = some c)
    (hd : d ≠ c) : pc.role d = .out := by
  cases r with
  | none =>
    obtain rfl : pc = .trying ctx k .queue := h
    exact role_elsewhere hop hchannel hd
  | some r => exact h.1 d

theorem fits {sharp : Prop} {L L' : PlaceLog Nat (Item α)} {j j' : Job (Item α)} {n c : Nat}
    {op : Op α} (h : ctx.After k pc r) (hop : ctx.call.ops[ctx.index k]? = some op)
    (hmoves : L.Moves sharp t j r L' j') (hfits : (op.role c).Fits t n j) (hbusy : j ≠ .rest) :
    (pc.role c).Fits t n j' := by
  have hnext := fits_of_moves hmoves hfits hbusy
  cases r with
  | none =>
    obtain rfl : pc = .trying ctx k .queue := h
    rw [Pc.role_queue hop]
    exact (if_pos rfl).mp hnext
  | some r =>
    rw [h.1 c]
    exact (if_neg nofun).mp hnext

theorem void (h : ctx.After k pc r) (hr : ∀ r', r = some r' → answerOf (ctx.index k) r' = none)
    {call : Call α} {a : Answer α} (hended : pc.ended = some (call, a)) : a.Void := by
  cases r with
  | none =>
    obtain rfl : pc = .trying ctx k .queue := h
    cases hended
  | some r =>
    have hanswer := h.2
    rw [hr r rfl] at hanswer
    exact (hanswer call a hended).2

theorem answers {r : Reply (Item α)} {a : Answer α} (h : ctx.After k pc (some r))
    (ha : answerOf (ctx.index k) r = some a) : pc.ended = some (ctx.call, a) := by
  have hanswer := h.2
  rw [ha] at hanswer
  exact hanswer

end Ctx.After

theorem Goes.elsewhere {c d : Nat} {op : Op α} {pc : Pc α} {q : Queue (Item α)}
    {j j' : Job (Item α)} {r : Option (Reply (Item α))} (h : Goes s t c k ctx op pc q j j' r)
    (hd : d ≠ c) : (s.pcs t).role d = .out := by
  rw [h.trying]
  exact role_elsewhere h.tried h.channel hd

theorem State.Embedded.course (h : s.Embedded) (hcourse : Course s s') : s'.Embedded := by
  cases hcourse with
  | within hpcs hwords hcalls hlog => exact h.within hpcs hwords hcalls
  | begins t pc hidle hrole hended hwords hpcs hcalls hlog =>
    refine h.goes (fun c => ?_) hrole hpcs (fun c => by rw [hwords]) fun u hu => ?_
    · rw [hidle]
      rfl
    · rw [hcalls, Function.update_of_ne hu]
  | goes t pc hbusy hold hnew hended hpcs hqueues hcalls hlog =>
    exact h.goes hold hnew hpcs hqueues fun u _ => by rw [hcalls]
  | finishes t call a hended hold hpcs hwords hcalls hlog =>
    exact h.goes hold (fun _ => rfl) hpcs (fun c => by rw [hwords]) fun u _ => by rw [hcalls]
  | enters t c k ctx op q j hpc hop hchannel hfits hj htakes hplaces hstate =>
    subst hstate
    refine h.takes htakes (fun d _ => ?_) (fun d hd => role_elsewhere hop hchannel hd) ?_ rfl rfl
      rfl
    · rw [hpc]
      rfl
    · rw [Pc.role_queue hop]
      exact hfits
  | moves t c k ctx op pc q j j' r hgoes hstate =>
    subst hstate
    exact h.takes hgoes.takes (fun d hd => hgoes.elsewhere hd)
      (fun d hd => hgoes.after.elsewhere hgoes.tried hgoes.channel hd)
      (hgoes.after.fits hgoes.tried hgoes.moves hgoes.fits hgoes.busy) rfl rfl rfl

theorem embedded_of_runs {calls : Call α → Prop} {ok : State α → Nat → Prop} {w : Words α}
    (hw : w.New) (h : Runs calls ok w s) : s.Embedded := by
  induction h with
  | start => exact embedded_new hw
  | step hs hstep _ ih => exact ih.course (course_of_step ih hstep)

/-- A program that is followed by its courses. -/
theorem courses_of_runs {calls : Call α → Prop} {ok : State α → Nat → Prop} {w : Words α}
    (hw : w.New) {P : State α → Prop} (hnew : P (.new w))
    (hcourse : ∀ s s' : State α, s.Embedded → s'.Embedded → Course s s' → P s → P s')
    (h : Runs calls ok w s) : P s := by
  induction h with
  | start => exact hnew
  | step hs hstep _ ih =>
    have hembedded := embedded_of_runs hw hs
    have hturn := course_of_step hembedded hstep
    exact hcourse _ _ hembedded (hembedded.course hturn) hturn ih

end Steps

end Uvent.Sync.Primitives
