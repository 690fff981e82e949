import Mathlib.Logic.Relation
import Uvent.Sync.ChannelAccounts

/-!
# Closed and drained channels

A receive that reports that its channel is closed and drained has looked at the queue without
a lock.  It is right, and stays right, in the runs that close a channel only while no send is
between the check of `closed_` and the end of its attempt.
-/

namespace Uvent.Sync.Primitives

open Uvent.Lib Uvent.Queue Uvent.Sync.Suspension

variable {α : Type}

/-! ### What `empty_relaxed` has seen -/

def ClaimedBelow (L : PlaceLog Nat α) (b : Nat) : Prop := ∀ x, x < b → L.taker x ≠ none

/-- What a thread that is at `p` in `empty_relaxed` knows of the places. -/
def EmptyPc.Seen (L : PlaceLog Nat α) : Option Nat → EmptyPc → Prop
  | none, .enqRead e => ∀ x, L.put x ≠ none → x < e
  | none, .deqRead d => ClaimedBelow L d
  | some size, .segment s => ClaimedBelow L (s * size)
  | some size, .position s d => d < size ∧ ClaimedBelow L (s * size + d)
  | some size, .next s => ClaimedBelow L (s * size + size)
  | _, _ => True

/-- It keeps what it knows while nothing is put. -/
theorem EmptyPc.Seen.mono {L L' : PlaceLog Nat α} {span : Option Nat} {p : EmptyPc}
    (h : p.Seen L span) (hput : L'.put = L.put)
    (htaker : ∀ x, L.taker x ≠ none → L'.taker x ≠ none) : p.Seen L' span := by
  have hbelow : ∀ {b}, ClaimedBelow L b → ClaimedBelow L' b := fun hb x hx => htaker x (hb x hx)
  cases span with
  | none =>
    cases p with
    | enqRead e => exact fun x hx => h x (hput ▸ hx)
    | deqRead d => exact hbelow h
    | first | segment | position | next => trivial
  | some size =>
    cases p with
    | segment s => exact hbelow h
    | position s d => exact ⟨h.1, hbelow h.2⟩
    | next s => exact hbelow h
    | first | enqRead | deqRead => trivial

namespace Queue

variable {q : Queue α} {p p' : EmptyPc} {enqFirst : Bool}

theorem seen_emptyStep (h : q.Reached) (hseen : p.Seen q.places q.span)
    (hstep : q.emptyStep enqFirst p = .inl p') : p'.Seen q.places q.span := by
  cases q with
  | ring cap w =>
    obtain ⟨stage, hholds⟩ := Mpmc.holds_of_runs h.1 h.2
    have hnext : EmptyPc.Seen (ring cap w).places none
        (if enqFirst then .enqRead w.shared.enqPos else .deqRead w.shared.deqPos) := by
      split
      · exact fun x hx => (hholds.fits.put_iff x).mp hx
      · exact fun x hx => (hholds.fits.taker_iff x).mpr hx
    cases p with
    | enqRead | deqRead => cases hstep
    | first | segment | position | next =>
      cases hstep
      exact hnext
  | chain size w =>
    have hsize : 0 < size := Nat.lt_of_lt_of_le Nat.two_pos h.1
    obtain ⟨hs, -⟩ := (Segmented.segmentedThreads hsize).holds h.2
    have hhead : ClaimedBelow (w.shared.places size) (w.shared.head * size) := by
      intro x hx
      rw [hs.taker_iff hsize]
      have hpassed := hs.passed (x / size) ((Nat.div_lt_iff_lt_mul hsize).mpr hx)
      exact Nat.lt_of_lt_of_le (Nat.mod_lt x hsize) hpassed
    cases p with
    | position | next => cases hstep
    | first | enqRead | deqRead =>
      cases hstep
      exact hhead
    | segment s =>
      have hbelow : ∀ d, d ≤ size → d ≤ (w.shared.segs s).deqPos →
          ClaimedBelow (w.shared.places size) (s * size + d) := by
        intro d hd hdeq x hx
        by_cases hlt : x < s * size
        · exact hseen x hlt
        · have hdiv : x / size = s := by
            refine Nat.div_eq_of_lt_le (Nat.not_lt.mp hlt) ?_
            rw [Nat.succ_mul]
            omega
          have hmod : x % size < d := by
            have := Segmented.place_eq size x
            rw [hdiv] at this
            omega
          rw [hs.taker_iff hsize, hdiv]
          omega
      simp only [emptyStep] at hstep
      split at hstep
      · rename_i hpos
        cases hstep
        exact ⟨hpos, hbelow _ hpos.le le_rfl⟩
      · rename_i hpos
        cases hstep
        exact hbelow size le_rfl (Nat.not_lt.mp hpos)

theorem drained_emptyStep (h : q.Reached) (hseen : p.Seen q.places q.span)
    (hstep : q.emptyStep enqFirst p = .inr true) : q.places.Drained := by
  cases q with
  | ring cap w =>
    obtain ⟨stage, hholds⟩ := Mpmc.holds_of_runs h.1 h.2
    cases p with
    | first | segment | position | next => cases hstep
    | enqRead e =>
      have heq : e = w.shared.deqPos := of_decide_eq_true (Sum.inr.inj hstep)
      intro x hx
      rw [show (ring cap w).places = w.shared.places from rfl, hholds.fits.taker_iff, ← heq]
      exact hseen x hx
    | deqRead d =>
      have heq : w.shared.enqPos = d := of_decide_eq_true (Sum.inr.inj hstep)
      intro x hx
      refine hseen x ?_
      rw [← heq]
      exact (hholds.fits.put_iff x).mp hx
  | chain size w =>
    have hsize : 0 < size := Nat.lt_of_lt_of_le Nat.two_pos h.1
    obtain ⟨hs, -⟩ := (Segmented.segmentedThreads hsize).holds h.2
    have hdivmod : ∀ {s b}, ¬s < w.shared.last →
        (∀ x, x / size = s → (w.shared.places size).put x ≠ none → x % size < b) → b ≤ size →
        ClaimedBelow (w.shared.places size) (s * size + b) → (w.shared.places size).Drained := by
      intro s b hlast hpos hb hbelow x hx
      refine hbelow x ?_
      have hput := hs.put_lt hx
      have hx' := Segmented.place_eq size x
      rcases Nat.lt_or_eq_of_le (Nat.le_trans hput.1 (Nat.not_lt.mp hlast)) with hlt | heq
      · have hle : (x / size + 1) * size ≤ s * size := Nat.mul_le_mul_right size hlt
        have hmod := Nat.mod_lt x hsize
        rw [Nat.succ_mul] at hle
        omega
      · have hmod := hpos x heq hx
        rw [heq] at hx'
        omega
    cases p with
    | first | enqRead | deqRead => cases hstep
    | segment s =>
      simp only [emptyStep] at hstep
      split at hstep <;> cases hstep
    | position s d =>
      have hle : (w.shared.segs s).enqPos ≤ d := of_decide_eq_true (Sum.inr.inj hstep)
      have hlast : ¬s < w.shared.last := fun hlt => by
        have := hs.filled s hlt
        have := hseen.1
        omega
      refine hdivmod hlast (fun x hdiv hx => ?_) hseen.1.le hseen.2
      have hput := (hs.put_lt hx).2
      rw [hdiv] at hput
      omega
    | next s =>
      have hlast : ¬s < w.shared.last := of_decide_eq_true (Sum.inr.inj hstep)
      exact hdivmod hlast (fun x _ _ => Nat.mod_lt x hsize) le_rfl hseen

end Queue

/-! ### Closed channels -/

/-- The coroutine is past the check of `closed_` in an attempt to send over channel `c`. -/
def Pc.Past (c : Nat) : Pc α → Prop
  | .trying ctx k p => ∃ op, ctx.call.ops[ctx.index k]? = some op ∧ op.Past c p
  | _ => False

def State.Guarded (s : State α) : Prop :=
  ∀ c, (s.words.channels c).closed = true → ∀ t, ¬(s.pcs t).Past c

def ClosesApart (s : State α) (t : Nat) : Prop :=
  ∀ ctx c, s.pcs t = .direct ctx → ctx.call = .close c → ∀ u, ¬(s.pcs u).Past c

def Words.Over (w : Words α) (c : Nat) : Prop :=
  (w.channels c).closed = true ∧ (w.channels c).queue.places.Drained

structure Words.Onward (w w' : Words α) (c : Nat) : Prop where
  closed : (w'.channels c).closed = true
  span : (w'.channels c).queue.span = (w.channels c).queue.span
  put : (w'.channels c).queue.places.put = (w.channels c).queue.places.put
  taker : ∀ x, (w.channels c).queue.places.taker x ≠ none →
    (w'.channels c).queue.places.taker x ≠ none

theorem Words.Onward.over {w w' : Words α} {c : Nat} (h : w.Onward w' c) (hover : w.Over c) :
    w'.Over c :=
  ⟨h.closed, fun x hx => h.taker x (hover.2 x (h.put ▸ hx))⟩

section Steps

variable {s s' : State α} {t : Nat}

theorem not_past_attempt (ctx : Ctx α) (k c : Nat) : ¬(ctx.attempt k).Past c := by
  rw [Ctx.attempt]
  split
  · rename_i op hop
    rintro ⟨op', hop', hpast⟩
    cases hop.symm.trans hop'
    cases op with
    | send d v =>
      revert hpast
      cases ctx.call.full <;> exact id
    | recv | wait | acquire | sleep => exact hpast
  · exact id

theorem not_past_failed (ctx : Ctx α) (k c : Nat) : ¬(ctx.failed k).Past c := by
  rw [Ctx.failed]
  split
  · exact not_past_attempt ctx (k + 1) c
  · split <;> exact id

theorem State.Guarded.goes (h : s.Guarded) {p : Pc α} (hpcs : s'.pcs = Function.update s.pcs t p)
    (hclosed : ∀ c, (s'.words.channels c).closed = (s.words.channels c).closed)
    (hpast : ∀ c, (s.words.channels c).closed = true → p.Past c → (s.pcs t).Past c) :
    s'.Guarded := by
  intro c hc u
  rw [hclosed] at hc
  rw [hpcs]
  by_cases hu : u = t
  · subst hu
    rw [Function.update_self]
    exact fun hp => h c hc u (hpast c hc hp)
  · rw [Function.update_of_ne hu]
    exact h c hc u

theorem touches_closed {w w' : Words α} {op : Op α} (h : op.Touches w w') (c : Nat) :
    (w'.channels c).closed = (w.channels c).closed := by
  cases h with
  | nothing | consume | acquire => rfl
  | queue op d q hfreed =>
    by_cases hd : c = d
    · rw [hd, Words.setQueue_self]
    · rw [Words.setQueue_of_ne q hd]

theorem State.Guarded.attempt (h : s.Guarded) {ctx : Ctx α} {k : Nat} {op : Op α} {p : TryPc}
    (hpc : s.pcs t = .trying ctx k p) (hop : ctx.call.ops[ctx.index k]? = some op)
    (spurious : Bool) : (s.attempt t ctx k op p spurious).Guarded := by
  have hclosed := touches_closed (op.touches t (s.calls t) ctx.call.full spurious
    ((s.waits.coros t).sleepers (ctx.index k)).timer.fired s.words p)
  have hpast : ∀ p' c, (op.tryStep t (s.calls t) ctx.call.full spurious
      ((s.waits.coros t).sleepers (ctx.index k)).timer.fired s.words p).2 = .more p' →
      op.Past c p' → op.Past c p ∨ (s.words.channels c).closed = false :=
    fun p' c => op.tryStep_past t (s.calls t) ctx.call.full spurious _ s.words
  have hattempted := s.attempted t ctx k op p spurious
  generalize s.attempt t ctx k op p spurious = s' at hattempted
  generalize op.tryStep t (s.calls t) ctx.call.full spurious
    ((s.waits.coros t).sleepers (ctx.index k)).timer.fired s.words p = next
    at hclosed hpast hattempted
  cases hattempted with
  | more p' hmore =>
    refine h.goes rfl hclosed ?_
    rintro c hc ⟨op', hop', hp'⟩
    obtain ⟨hcall, hstart⟩ := ctx.settleOp_call s.words op (.more p')
    rw [Ctx.index, hcall, hstart] at hop'
    cases hop.symm.trans hop'
    rw [hpc]
    refine ⟨op, hop, (hpast p' c hmore hp').resolve_right fun halive => ?_⟩
    exact Bool.false_ne_true (halive.symm.trans hc)
  | fail hfail => exact h.goes rfl hclosed fun c _ hp => (not_past_failed _ k c hp).elim
  | done r wake hdone => exact h.goes rfl hclosed fun c _ hp => hp.elim

theorem State.Guarded.step {calls : Call α → Prop} {who : Option Nat} (h : s.Guarded)
    (hstep : Step calls s who s') (hok : ∀ t, who = some t → ClosesApart s t) : s'.Guarded := by
  cases hstep with
  | begin t call start hpc _ _ =>
    refine h.goes rfl (fun _ => rfl) fun c _ hp => ?_
    split at hp
    · exact hp.elim
    · exact (not_past_attempt _ 0 c hp).elim
  | attempt t ctx k op p spurious hpc hop => exact h.attempt hpc hop spurious
  | drain t ctx cs k p alive enqFirst hpc _ =>
    obtain ⟨pc, hdrain, hcases⟩ := s.drain_cases t ctx cs k p alive enqFirst
    rw [hdrain]
    refine h.goes rfl (fun _ => rfl) fun c _ hp => ?_
    cases hcases <;> exact hp.elim
  | check | inner | loadFired | finalize => exact h
  | load t ctx w k l p enqFirst =>
    obtain ⟨p', hload⟩ | ⟨b, hload⟩ := s.load_cases t ctx w k l p enqFirst <;> rw [hload]
    · exact h.goes rfl (fun _ => rfl) fun c _ hp => hp.elim
    · exact h.goes (p := .waiting (if b then ctx.settle l else ctx) w .first) rfl (fun _ => rfl)
        fun c _ hp => hp.elim
  | answer t ctx w p start hpc _ =>
    refine h.goes rfl (fun _ => rfl) fun c _ hp => ?_
    split at hp
    · exact (not_past_attempt _ 0 c hp).elim
    · exact hp.elim
  | peek t ctx l count rest a hpc =>
    refine h.goes rfl (fun _ => rfl) fun c _ hp => ?_
    split at hp <;> exact hp.elim
  | pause | wake | finish => exact h.goes rfl (fun _ => rfl) fun c _ hp => hp.elim
  | direct t ctx hpc =>
    have hdirected := s.directed t ctx
    generalize s.direct t ctx = s' at hdirected
    cases hdirected with
    | nothing | set | reset | release =>
      exact h.goes rfl (fun _ => rfl) fun c _ hp => hp.elim
    | close ch hcall hopen =>
      intro c hc u
      change ¬(Function.update s.pcs t _ u).Past c
      by_cases hu : u = t
      · subst hu
        rw [Function.update_self]
        exact id
      · rw [Function.update_of_ne hu]
        by_cases hch : c = ch
        · rw [hch]
          exact hok t rfl ctx ch hpc hcall u
        · change ((s.words.close ch).channels c).closed = true at hc
          rw [Words.close_of_ne hch] at hc
          exact h c hc u

theorem closed_step {calls : Call α → Prop} {who : Option Nat} (hstep : Step calls s who s')
    {c : Nat} (hc : (s.words.channels c).closed = true) : (s'.words.channels c).closed = true := by
  cases hstep with
  | attempt t ctx k op p spurious hpc hop =>
    have hclosed := touches_closed (op.touches t (s.calls t) ctx.call.full spurious
      ((s.waits.coros t).sleepers (ctx.index k)).timer.fired s.words p) c
    have hattempted := s.attempted t ctx k op p spurious
    generalize s.attempt t ctx k op p spurious = s' at hattempted
    cases hattempted <;> exact hclosed.trans hc
  | drain t ctx cs k p alive enqFirst hpc _ =>
    obtain ⟨pc, hdrain, -⟩ := s.drain_cases t ctx cs k p alive enqFirst
    rw [hdrain]
    exact hc
  | load t ctx w k l p enqFirst =>
    obtain ⟨p', hload⟩ | ⟨b, hload⟩ := s.load_cases t ctx w k l p enqFirst
    · rw [hload]
      exact hc
    · rw [hload]
      exact hc
  | direct t ctx hpc =>
    have hdirected := s.directed t ctx
    generalize s.direct t ctx = s' at hdirected
    cases hdirected with
    | nothing | set | reset | release => exact hc
    | close ch hcall hopen =>
      change ((s.words.close ch).channels c).closed = true
      by_cases hch : c = ch
      · rw [hch, Words.close_self]
      · rw [Words.close_of_ne hch]
        exact hc
  | begin | pause | check | inner | loadFired | answer | peek | wake | finalize | finish => exact hc

/-- What a step does to a closed channel. -/
theorem onward_step {calls : Call α → Prop} {who : Option Nat} (hembedded : s.Embedded)
    (hguarded : s.Guarded) (hstep : Step calls s who s') {c : Nat}
    (hc : (s.words.channels c).closed = true) : s.words.Onward s'.words c := by
  have hclosed := closed_step hstep hc
  have hsame : (s'.words.channels c).queue = (s.words.channels c).queue →
      s.words.Onward s'.words c := by
    intro hq
    refine ⟨hclosed, ?_, ?_, fun x hx => ?_⟩
    · rw [hq]
    · rw [hq]
    · rwa [hq]
  cases course_of_step hembedded hstep with
  | within hpcs hwords hcalls hlog => exact hsame (by rw [hwords])
  | begins t pc hidle hrole hended hwords hpcs hcalls hlog => exact hsame (by rw [hwords])
  | goes t pc hbusy hold hnew hended hpcs hqueues hcalls hlog => exact hsame (hqueues c)
  | finishes t call a hended hold hpcs hwords hcalls hlog => exact hsame (by rw [hwords])
  | enters t d k ctx op q j hpc hop hchannel hfits hj htakes hplaces hstate =>
    have hwords : s'.words = s.words.setQueue d q := by
      rw [hstate]
    by_cases hd : c = d
    · subst hd
      refine ⟨hclosed, ?_, ?_, fun x hx => ?_⟩
      · rw [hwords, Words.setQueue_self]
        exact htakes.span
      · rw [hwords, Words.setQueue_self, hplaces]
      · rwa [hwords, Words.setQueue_self, hplaces]
    · exact hsame (by rw [hwords, Words.setQueue_of_ne q hd])
  | moves t d k ctx op pc q j j' r hgoes hstate =>
    have hwords : s'.words = s.words.setQueue d q := by
      rw [hstate]
    by_cases hd : c = d
    · subst hd
      have hputs : q.places.put = (s.words.channels c).queue.places.put := by
        have hmoves := hgoes.moves
        have hfits := hgoes.fits
        have hnot : ∀ it done, j = .put it done → False := by
          rintro it done rfl
          obtain ⟨hop, -⟩ := Op.of_puts hfits
          refine hguarded c hc t ?_
          rw [hgoes.trying]
          exact ⟨op, hgoes.tried, by rw [hop]; rfl⟩
        generalize q.places = L' at hmoves
        cases hmoves with
        | puts x it => exact (hnot _ _ rfl).elim
        | same | sent | full | claims | empty | gives => rfl
      refine ⟨hclosed, ?_, ?_, fun x hx => ?_⟩
      · rw [hwords, Words.setQueue_self]
        exact hgoes.takes.span
      · rw [hwords, Words.setQueue_self]
        exact hputs
      · rw [hwords, Words.setQueue_self]
        change q.places.taker x ≠ none
        rwa [hgoes.moves.taker_mono hx]
    · exact hsame (by rw [hwords, Words.setQueue_of_ne q hd])

end Steps

/-! ### What is reported -/

def Call.Drains (call : Call α) (a : Answer α) (c : Nat) : Prop :=
  (∃ i, a = .done i .drained ∧ call.ops[i]? = some (.recv c)) ∨
    ∃ cs, call = .selectRecv cs ∧ a = .drained ∧ c ∈ cs

def Words.Looks (w : Words α) (c : Nat) (p : EmptyPc) : Prop :=
  (w.channels c).closed = true ∧ p.Seen (w.channels c).queue.places (w.channels c).queue.span

def Pc.Found (w : Words α) : Pc α → Prop
  | .trying ctx k (.drainedEmpty p) =>
      ∀ c, ctx.call.ops[ctx.index k]? = some (.recv c) → w.Looks c p
  | .draining ctx k p alive =>
      ∀ cs, ctx.call = .selectRecv cs →
        (∀ i ch, i < k → cs[i]? = some ch → ch ∈ alive ∨ w.Over ch) ∧
          ∀ p' ch, p = some p' → cs[k]? = some ch → w.Looks ch p'
  | .waking ctx _ _ a => ∀ c, ctx.call.Drains a c → w.Over c
  | _ => True

structure State.Founded (s : State α) : Prop where
  pcs : ∀ t, (s.pcs t).Found s.words
  log : ∀ t n call a, .returned t n call a ∈ s.log → ∀ c, call.Drains a c → s.words.Over c

section Reports

variable {s s' : State α} {t : Nat}

theorem Words.Looks.onward {w w' : Words α} {c : Nat} {p : EmptyPc} (h : w.Looks c p)
    (honward : (w.channels c).closed = true → w.Onward w' c) : w'.Looks c p := by
  have hstep := honward h.1
  refine ⟨hstep.closed, ?_⟩
  rw [hstep.span]
  exact h.2.mono hstep.put hstep.taker

theorem Pc.Found.onward {w w' : Words α} {pc : Pc α} (h : pc.Found w)
    (honward : ∀ c, (w.channels c).closed = true → w.Onward w' c) : pc.Found w' := by
  cases pc with
  | trying ctx k p =>
    cases p with
    | drainedEmpty p => exact fun c hop => (h c hop).onward (honward c)
    | closedFirst | closed | enter | queue | drainedClosed | consume | load | cas | fired => trivial
  | draining ctx k p alive =>
    intro cs hcall
    obtain ⟨hbefore, hlooks⟩ := h cs hcall
    refine ⟨fun i ch hi hch => ?_, fun p' ch hp hch => ?_⟩
    · refine (hbefore i ch hi hch).imp_right fun hover => ?_
      exact (honward ch hover.1).over hover
    · exact (hlooks p' ch hp hch).onward (honward ch)
  | waking ctx todo locked a =>
    intro c hdrains
    have hover := h c hdrains
    exact (honward c hover.1).over hover
  | idle | pausing | waiting | direct => trivial

theorem found_attempt (w : Words α) (ctx : Ctx α) (k : Nat) : (ctx.attempt k).Found w := by
  rw [Ctx.attempt]
  split
  · rename_i op hop
    cases op with
    | send d v => cases ctx.call.full <;> trivial
    | recv | wait | acquire | sleep => trivial
  · trivial

theorem Call.Drains.answer {call : Call α} {a : Answer α} {c : Nat} (h : call.Drains a c) :
    (∃ i, a = .done i .drained) ∨ a = .drained := by
  obtain ⟨i, ha, -⟩ | ⟨cs, -, ha, -⟩ := h
  · exact .inl ⟨i, ha⟩
  · exact .inr ha

/-- An answer that says nothing about closed channels. -/
theorem found_answer {w : Words α} {ctx : Ctx α} {todo : List (ListId × Option Nat)}
    {locked : Bool} {a : Answer α} (hdone : ∀ i, a ≠ .done i .drained) (hdrained : a ≠ .drained) :
    Pc.Found w (.waking ctx todo locked a) := by
  intro c hdrains
  obtain ⟨i, ha⟩ | ha := hdrains.answer
  · exact absurd ha (hdone i)
  · exact absurd ha hdrained

theorem found_failed (w : Words α) (ctx : Ctx α) (k : Nat) : (ctx.failed k).Found w := by
  rw [Ctx.failed]
  split
  · exact found_attempt w ctx (k + 1)
  · split
    · exact found_answer (fun _ h => by cases h) (fun h => by cases h)
    · exact fun cs hcall =>
        ⟨fun i ch hi => (Nat.not_lt_zero i hi).elim, fun _ _ h => by cases h⟩
    · trivial

theorem State.Founded.goes (h : s.Founded) {p : Pc α} (hpcs : s'.pcs = Function.update s.pcs t p)
    (honward : ∀ c, (s.words.channels c).closed = true → s.words.Onward s'.words c)
    (hlog : ∀ u n call a, .returned u n call a ∈ s'.log → .returned u n call a ∈ s.log)
    (hfound : p.Found s'.words) : s'.Founded := by
  refine ⟨fun u => ?_, fun u n call a hr c hdrains => ?_⟩
  · rw [hpcs]
    by_cases hu : u = t
    · subst hu
      rwa [Function.update_self]
    · rw [Function.update_of_ne hu]
      exact (h.pcs u).onward honward
  · have hover := h.log u n call a (hlog u n call a hr) c hdrains
    exact (honward c hover.1).over hover

theorem State.Founded.attempt (h : s.Founded) (hembedded : s.Embedded) {ctx : Ctx α} {k : Nat}
    {op : Op α} {p : TryPc} (hpc : s.pcs t = .trying ctx k p)
    (hop : ctx.call.ops[ctx.index k]? = some op) (spurious : Bool)
    (honward : ∀ c, (s.words.channels c).closed = true →
      s.words.Onward (s.attempt t ctx k op p spurious).words c) :
    (s.attempt t ctx k op p spurious).Founded := by
  have hfound := h.pcs t
  rw [hpc] at hfound
  have hfinds : ∀ c, op = .recv c → Op.Finds s.words spurious c p
      (op.tryStep t (s.calls t) ctx.call.full spurious
        ((s.waits.coros t).sleepers (ctx.index k)).timer.fired s.words p).2 := by
    rintro c rfl
    exact Op.tryStep_finds ..
  have hattempted := s.attempted t ctx k op p spurious
  generalize s.attempt t ctx k op p spurious = s' at honward hattempted
  generalize op.tryStep t (s.calls t) ctx.call.full spurious
    ((s.waits.coros t).sleepers (ctx.index k)).timer.fired s.words p = next at hfinds hattempted
  cases hattempted with
  | fail hfail =>
    exact h.goes rfl honward (fun _ _ _ _ => id) (found_failed _ _ k)
  | more p' hmore =>
    refine h.goes rfl honward (fun _ _ _ _ => id) ?_
    obtain ⟨hcall, hstart⟩ := ctx.settleOp_call s.words op (.more p')
    cases p' with
    | closedFirst | closed | enter | queue | drainedClosed | consume | load | cas | fired => trivial
    | drainedEmpty e =>
      intro c hc
      rw [Ctx.index, hcall, hstart] at hc
      cases hop.symm.trans hc
      have hf := hfinds c rfl
      rw [hmore] at hf
      refine Words.Looks.onward (w := s.words) ?_ (honward c)
      cases hf with
      | closed hclosed =>
        refine ⟨hclosed, ?_⟩
        cases (s.words.channels c).queue.span <;> trivial
      | goes e₀ _ hstep =>
        obtain ⟨hclosed, hseen⟩ := hfound c hop
        exact ⟨hclosed, Queue.seen_emptyStep (hembedded c).1 hseen hstep⟩
      | other _ _ hne _ => exact absurd rfl (hne e)
  | done r wake hdone =>
    refine h.goes rfl honward (fun u n call a hr => entries_returned.mp hr) ?_
    by_cases hr : r = .drained
    · subst hr
      intro c hdrains
      obtain ⟨i, hi, hops⟩ | ⟨cs, -, hi, -⟩ := hdrains
      · cases hi
        cases hop.symm.trans hops
        have hf := hfinds c rfl
        rw [hdone] at hf
        cases hf with
        | drained e hstep =>
          obtain ⟨hclosed, hseen⟩ := hfound c hop
          exact (honward c hclosed).over
            ⟨hclosed, Queue.drained_emptyStep (hembedded c).1 hseen hstep⟩
        | other _ _ _ hne => exact absurd rfl (hne wake)
      · cases hi
    · refine found_answer (fun i hi => hr ?_) (fun h => by cases h)
      cases hi
      rfl

theorem State.Founded.drain (h : s.Founded) (hembedded : s.Embedded) {ctx : Ctx α} {cs : List Nat}
    {k : Nat} {p : Option EmptyPc} {alive : List Nat} (enqFirst : Bool)
    (hpc : s.pcs t = .draining ctx k p alive) (hcall : ctx.call = .selectRecv cs) :
    (s.drain t ctx cs k p alive enqFirst).Founded := by
  have hfound := h.pcs t
  rw [hpc] at hfound
  obtain ⟨hbefore, hlooks⟩ := hfound cs hcall
  have hsame : ∀ c, (s.words.channels c).closed = true → s.words.Onward s.words c :=
    fun c hc => ⟨hc, rfl, rfl, fun _ => id⟩
  obtain ⟨pc, hdrain, hcases⟩ := s.drain_cases t ctx cs k p alive enqFirst
  rw [hdrain]
  refine h.goes rfl hsame (fun _ _ _ _ => id) ?_
  have hunique : ∀ cs', ctx.call = .selectRecv cs' → cs' = cs := fun cs' hcs => by
    cases hcall.symm.trans hcs
    rfl
  cases hcases with
  | waits => trivial
  | scanned _ hover =>
    rintro c (⟨i, hi, -⟩ | ⟨cs', hcs, -, hmem⟩)
    · cases hi
    · rw [hunique cs' hcs] at hmem
      obtain ⟨i, hi, hget⟩ := List.getElem_of_mem hmem
      have hle := List.getElem?_eq_none_iff.mp hover
      have hsome : cs[i]? = some c := List.getElem?_eq_some_iff.mpr ⟨hi, hget⟩
      exact (hbefore i c (by omega) hsome).resolve_left nofun
  | closed ch _ hch hclosed =>
    intro cs' hcs
    rw [hunique cs' hcs]
    refine ⟨hbefore, fun p' ch' hp hch' => ?_⟩
    cases hp
    cases hch.symm.trans hch'
    refine ⟨hclosed, ?_⟩
    change EmptyPc.Seen _ (s.words.channels ch).queue.span .first
    cases (s.words.channels ch).queue.span <;> trivial
  | goes ch _ p₀ p₁ hch hstep =>
    intro cs' hcs
    rw [hunique cs' hcs]
    refine ⟨hbefore, fun p' ch' hp hch' => ?_⟩
    cases hp
    cases hch.symm.trans hch'
    obtain ⟨hclosed, hseen⟩ := hlooks p₀ ch rfl hch
    exact ⟨hclosed, Queue.seen_emptyStep (hembedded ch).1 hseen hstep⟩
  | drained ch _ p₀ hch hstep =>
    intro cs' hcs
    rw [hunique cs' hcs]
    refine ⟨fun i ch' hi hch' => ?_, fun _ _ h => by cases h⟩
    by_cases hik : i = k
    · subst hik
      cases hch.symm.trans hch'
      obtain ⟨hclosed, hseen⟩ := hlooks p₀ ch rfl hch
      exact .inr ⟨hclosed, Queue.drained_emptyStep (hembedded ch).1 hseen hstep⟩
    · exact hbefore i ch' (by omega) hch'
  | alive ch _ _ hch =>
    intro cs' hcs
    rw [hunique cs' hcs]
    refine ⟨fun i ch' hi hch' => ?_, fun _ _ h => by cases h⟩
    rw [List.mem_append]
    by_cases hik : i = k
    · subst hik
      cases hch.symm.trans hch'
      exact .inl (.inr (List.mem_singleton_self ch))
    · exact (hbefore i ch' (by omega) hch').imp_left .inl

theorem State.Founded.step {calls : Call α → Prop} {who : Option Nat} (h : s.Founded)
    (hembedded : s.Embedded) (hguarded : s.Guarded) (hstep : Step calls s who s') : s'.Founded := by
  have honward : ∀ c, (s.words.channels c).closed = true → s.words.Onward s'.words c :=
    fun c => onward_step hembedded hguarded hstep
  cases hstep with
  | begin t call start hpc _ _ =>
    refine h.goes rfl honward (fun _ _ _ _ => id) ?_
    split
    · trivial
    · exact found_attempt _ _ 0
  | attempt t ctx k op p spurious hpc hop => exact h.attempt hembedded hpc hop spurious honward
  | drain t ctx cs k p alive enqFirst hpc hcall => exact h.drain hembedded enqFirst hpc hcall
  | check | inner | loadFired | finalize => exact ⟨h.pcs, h.log⟩
  | load t ctx w k l p enqFirst =>
    obtain ⟨p', hload⟩ | ⟨b, hload⟩ := s.load_cases t ctx w k l p enqFirst
    · rw [hload]
      exact h.goes rfl (fun c hc => ⟨hc, rfl, rfl, fun _ => id⟩) (fun _ _ _ _ => id) trivial
    · rw [hload]
      exact h.goes (p := .waiting (if b then ctx.settle l else ctx) w .first) rfl
        (fun c hc => ⟨hc, rfl, rfl, fun _ => id⟩) (fun _ _ _ _ => id) trivial
  | pause t ctx w => exact h.goes rfl honward (fun _ _ _ _ => id) trivial
  | answer t ctx w p start hpc _ =>
    refine h.goes rfl honward (fun _ _ _ _ => id) ?_
    split
    · exact found_attempt _ _ 0
    · exact found_answer (fun _ h => by cases h) (fun h => by cases h)
  | peek t ctx l count rest a hpc =>
    have hfound := h.pcs t
    rw [hpc] at hfound
    refine h.goes rfl honward (fun _ _ _ _ => id) ?_
    split <;> exact hfound
  | wake t ctx l count rest a hpc =>
    have hfound := h.pcs t
    rw [hpc] at hfound
    exact h.goes rfl honward (fun _ _ _ _ => id) hfound
  | direct t ctx hpc =>
    have hdirected := s.directed t ctx
    generalize s.direct t ctx = s' at honward hdirected
    cases hdirected with
    | nothing | close | reset =>
      refine h.goes rfl honward (fun _ _ _ _ => id) ?_
      exact found_answer (fun _ h => by cases h) (fun h => by cases h)
    | set | release =>
      refine h.goes rfl honward (fun u n call a hr => ?_) ?_
      · exact (List.mem_cons.mp hr).resolve_left nofun
      · exact found_answer (fun _ h => by cases h) (fun h => by cases h)
  | finish t ctx a hpc _ =>
    have hfound := h.pcs t
    rw [hpc] at hfound
    refine ⟨fun u => ?_, fun u n call b hr c hdrains => ?_⟩
    · change (Function.update s.pcs t .idle u).Found s.words
      by_cases hu : u = t
      · subst hu
        rw [Function.update_self]
        trivial
      · rw [Function.update_of_ne hu]
        exact h.pcs u
    · obtain heq | hr := List.mem_cons.mp hr
      · cases heq
        exact hfound c hdrains
      · exact h.log u n call b hr c hdrains

end Reports

/-! ### In a run -/

section Runs

variable {calls : Call α → Prop} {w : Words α} {s s' : State α} {t n c : Nat} {call : Call α}
  {a : Answer α}

def State.Later (calls : Call α → Prop) : State α → State α → Prop :=
  Relation.ReflTransGen fun s s' =>
    ∃ who, Step calls s who s' ∧ ∀ t, who = some t → ClosesApart s t

theorem State.Later.refl (s : State α) : s.Later calls s := Relation.ReflTransGen.refl

theorem State.Later.aside {s'' : State α} (h : s.Later calls s') (hstep : Step calls s' (some t) s'')
    (hpc : ∀ ctx, s'.pcs t ≠ .direct ctx) : s.Later calls s'' := by
  refine h.tail ⟨_, hstep, ?_⟩
  rintro _ ⟨⟩ ctx c hdirect
  exact absurd hdirect (hpc ctx)

theorem Runs.later (h : Runs calls ClosesApart w s) (hlater : s.Later calls s') :
    Runs calls ClosesApart w s' := by
  induction hlater with
  | refl => exact h
  | tail _ hstep ih =>
    obtain ⟨who, hstep, hok⟩ := hstep
    exact ih.step hstep hok

theorem guarded_of_runs (hw : w.New) (h : Runs calls ClosesApart w s) : s.Guarded := by
  induction h with
  | start =>
    intro c hc
    cases (hw.open_ c).symm.trans hc
  | step hs hstep hok ih => exact ih.step hstep hok

theorem founded_of_runs (hw : w.New) (h : Runs calls ClosesApart w s) : s.Founded := by
  induction h with
  | start => exact ⟨fun _ => trivial, fun _ _ _ _ hr => (List.not_mem_nil hr).elim⟩
  | step hs hstep hok ih =>
    exact ih.step (embedded_of_runs hw hs) (guarded_of_runs hw hs) hstep

theorem State.Founded.ended (h : s.Founded) (hended : s.Ended t n call a)
    (hdrains : call.Drains a c) : s.words.Over c := by
  obtain hlog | ⟨-, hpc⟩ := hended
  · exact h.log t n call a hlog c hdrains
  · have hfound := h.pcs t
    cases hpcs : s.pcs t with
    | waking ctx todo locked b =>
      rw [hpcs] at hpc hfound
      cases hpc
      exact hfound c hdrains
    | idle | trying | draining | pausing | waiting | direct =>
      rw [hpcs] at hpc
      cases hpc

/-- Nothing is put into a channel that is closed. -/
theorem onward_later (hw : w.New) (h : Runs calls ClosesApart w s)
    (hclosed : (s.words.channels c).closed = true) (hlater : s.Later calls s') :
    s.words.Onward s'.words c := by
  induction hlater with
  | refl => exact ⟨hclosed, rfl, rfl, fun _ => id⟩
  | tail hmid hstep ih =>
    obtain ⟨who, hstep, -⟩ := hstep
    have hrun := h.later hmid
    have hnext := onward_step (embedded_of_runs hw hrun) (guarded_of_runs hw hrun) hstep ih.closed
    exact ⟨hnext.closed, hnext.span.trans ih.span, hnext.put.trans ih.put,
      fun x hx => hnext.taker x (ih.taker x hx)⟩

def State.Reported (s : State α) (c : Nat) : Prop :=
  ∃ t n call a, s.Ended t n call a ∧ call.Drains a c

/-- Where channels are only closed while no send is past its check, a channel that was reported
closed and drained stays so: whatever was in it at any later time had been claimed before. -/
theorem drained_stays (hw : w.New) (h : Runs calls ClosesApart w s) (hreported : s.Reported c)
    (hlater : s.Later calls s') :
    (s.words.channels c).closed = true ∧ ∀ it, s'.Put c it → ∃ u, s.Claimed c u it := by
  obtain ⟨t, n, call, a, hended, hdrains⟩ := hreported
  obtain ⟨hclosed, hdrained⟩ := (founded_of_runs hw h).ended hended hdrains
  refine ⟨hclosed, ?_⟩
  rintro it ⟨x, hput⟩
  rw [(onward_later hw h hclosed hlater).put] at hput
  obtain ⟨u, hu⟩ := Option.ne_none_iff_exists'.mp (hdrained x (by rw [hput]; nofun))
  exact ⟨u, x, hput, hu⟩

theorem State.direct_pcs (s : State α) (t : Nat) (ctx : Ctx α) :
    (s.direct t ctx).waits = s.waits ∧
      ∃ pc, (s.direct t ctx).pcs = Function.update s.pcs t pc := by
  have hdirected := s.directed t ctx
  generalize s.direct t ctx = s' at hdirected ⊢
  cases hdirected <;> exact ⟨rfl, _, rfl⟩

theorem Unhindered.close (h : Unhindered calls ClosesApart w s)
    (hfirst : (s.pcs 0).resting = true) (hsecond : (s.pcs 1).resting = true)
    (hcalls : calls (.close c)) :
    Unhindered calls ClosesApart w
      ((s.begin 0 (.close c) 0).direct 0 ⟨.close c, 0, []⟩) := by
  have hpc : (s.begin 0 (.close c) 0).pcs 0 = .direct ⟨.close c, 0, []⟩ := rfl
  have hbegun : Unhindered calls ClosesApart w (s.begin 0 (.close c) 0) := by
    refine h.step (by decide) (.begin 0 (.close c) 0 (Pc.eq_idle hfirst) trivial hcalls) ?_ rfl rfl
    intro ctx c' hdirect
    rw [Pc.eq_idle hfirst] at hdirect
    cases hdirect
  have hothers : ∀ u c', ¬((s.begin 0 (.close c) 0).pcs u).Past c' := by
    intro u c'
    match u with
    | 0 => exact id
    | 1 =>
      have hsame : (s.begin 0 (.close c) 0).pcs 1 = s.pcs 1 := rfl
      rw [hsame, Pc.eq_idle hsecond]
      exact id
    | u + 2 =>
      rw [hbegun.idle (u + 2) (by omega)]
      exact id
  obtain ⟨hwaits, pc, hpcs⟩ := (s.begin 0 (.close c) 0).direct_pcs 0 ⟨.close c, 0, []⟩
  exact hbegun.step (by decide) (.direct 0 _ hpc) (fun _ c' _ _ u => hothers u c') hwaits hpcs

/-- Coroutine 0 sends 7, coroutine 1 receives it, coroutine 0 closes the channel, and the `recv` of
coroutine 1 finds it drained. -/
theorem one_drained : ∃ (w : Words Nat) (s : State Nat),
    w.New ∧ Runs (fun _ => True) ClosesApart w s ∧ s.Received 0 1 1 ⟨0, 1, 7⟩ ∧ s.Reported 0 ∧
      s.pcs 0 = .idle ∧ s.Put 0 ⟨0, 1, 7⟩ ∧ (s.words.channels 0).closed = true := by
  let w : Words Nat := ⟨fun _ => ⟨.chain 2 ⟨.new, fun _ => .idle⟩, false⟩,
    fun _ => ⟨true, false⟩, fun _ => 0⟩
  have hw : w.New := ⟨fun _ => .inr ⟨2, le_rfl, rfl⟩, fun _ => rfl, fun _ => le_rfl⟩
  have hok : ∀ (t : Nat) (s : State Nat), (∀ c, s.pcs t ≠ .direct c) → ClosesApart s t :=
    fun t s h ctx c hdirect => absurd hdirect (h ctx)
  have h₀ : Unhindered (fun _ => True) ClosesApart w _ := unhindered_new
  have h₁ := h₀.make (t := 0) (by decide) (hok 0) (.once (.send 0 7)) 12 (by decide +kernel) nofun
    trivial
  have h₂ := h₁.make (t := 1) (by decide) (hok 1) (.once (.recv 0)) 12 (by decide +kernel) nofun
    trivial
  have h₃ := (h₂.close (c := 0) (by decide +kernel) (by decide +kernel) trivial).goes
    (t := 0) (by decide) (hok 0) 4
  have h₄ := h₃.make (t := 1) (by decide) (hok 1) (.plain (.recv 0)) 20 (by decide +kernel)
    ⟨nofun, trivial⟩ trivial
  exact ⟨w, _, hw, h₄.runs, ⟨.once (.recv 0), 0, rfl, .inl (by decide +kernel)⟩,
    ⟨1, 2, .plain (.recv 0), .done 0 .drained, .inl (by decide +kernel), .inl ⟨0, rfl, rfl⟩⟩,
    Pc.eq_idle (by decide +kernel), ⟨0, by decide +kernel⟩, by decide +kernel⟩

/-- Behind that coroutine 0 tries to send again. -/
theorem drained_stays_received : ∃ s s' : State Nat,
    s.Received 0 1 1 ⟨0, 1, 7⟩ ∧ s.Reported 0 ∧ s.Later (fun _ => True) s' ∧
      s'.calls 0 = s.calls 0 + 1 ∧ s'.Put 0 ⟨0, 1, 7⟩ ∧
      (s.words.channels 0).closed = true ∧ ∀ it, s'.Put 0 it → ∃ u, s.Claimed 0 u it := by
  obtain ⟨w, s, hw, h, hreceived, hreported, hidle, hput, hclosed⟩ := one_drained
  have hbegin : Step (fun _ => True) s (some 0) (s.begin 0 (.once (.send 0 8)) 0) :=
    .begin 0 (.once (.send 0 8)) 0 hidle nofun trivial
  have hlater := (State.Later.refl s).aside hbegin (by simp [hidle])
  have hattempt : Step (fun _ => True) (s.begin 0 (.once (.send 0 8)) 0) (some 0) _ :=
    .attempt 0 _ 0 (.send 0 8) .closed false rfl rfl
  have hfails : (s.begin 0 (.once (.send 0 8)) 0).attempt 0 ⟨.once (.send 0 8), 0, []⟩ 0
      (.send 0 8) .closed false =
      (s.begin 0 (.once (.send 0 8)) 0).setPc 0 (.waking ⟨.once (.send 0 8), 0, []⟩ [] false .refused) := by
    have hrefused : (s.begin 0 (.once (.send 0 8)) 0).words.channels 0 = s.words.channels 0 := rfl
    simp only [State.attempt, Op.tryStep, hrefused, hclosed]
    rfl
  rw [hfails] at hattempt
  have hlater' := hlater.aside hattempt fun _ hpc => by cases hpc
  exact ⟨s, _, hreceived, hreported, hlater', rfl, hput,
    drained_stays hw h hreported hlater'⟩

end Runs

end Uvent.Sync.Primitives
