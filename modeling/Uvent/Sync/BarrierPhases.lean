import Uvent.Sync.AsyncBarrier
import Mathlib.Order.Interval.Finset.Nat

/-!
# The phases of `AsyncBarrier`

Every arrival has a number, and a phase is full when the number is a multiple of the
parties.  Who waits in the list of the barrier belongs to the phase that is not full;
whoever is in the hand of a walking coroutine, in a run queue or walks belongs to a full
one.  From this follows who proceeds, and when.
-/

namespace Uvent.Sync.AsyncBarrier

open Uvent.Lib

/-! ## What a step does to the counts -/

section Counting

variable {parties : Nat} {s s' : State} {line : List Nat} {t u : Nat} {pc : Pc}

theorem active_of_turn (hpcs : s'.pcs = Function.update s.pcs t pc) :
    s'.Active u ↔ if u = t then pc.active = true else s.Active u := by
  unfold State.Active
  rw [hpcs, Function.update_apply]
  split <;> rfl

/-- A coroutine moves on, and its arrival has happened now as it had before. -/
theorem active_of_same (hpcs : s'.pcs = Function.update s.pcs t pc)
    (hpc : pc.active = (s.pcs t).active) : s'.Active u ↔ s.Active u := by
  rw [active_of_turn hpcs]
  split
  case isTrue hu =>
    rw [hu, hpc]
    rfl
  case isFalse => rfl

theorem active_of_out (hpcs : s'.pcs = Function.update s.pcs t .out) (u : Nat) :
    s'.Active u ↔ u ≠ t ∧ s.Active u := by
  rw [active_of_turn hpcs]
  split
  case isTrue heq => exact ⟨nofun, fun hu => absurd heq hu.1⟩
  case isFalse hne => exact ⟨fun hu => ⟨hne, hu⟩, fun hu => hu.2⟩

theorem Counts.complete_add (h : Counts parties s line) :
    s.complete parties + s.arrived = s.arrivals := by
  rw [← h.phase, State.complete]
  exact Nat.div_add_mod' s.arrivals parties

theorem Counts.still (h : Counts parties s line) (hactive : ∀ u, s'.Active u ↔ s.Active u)
    (harrived : s'.arrived = s.arrived) (harrivals : s'.arrivals = s.arrivals)
    (hticket : s'.ticket = s.ticket) (hproceeded : s'.proceeded = s.proceeded) :
    Counts parties s' line := by
  have hcomplete : s'.complete parties = s.complete parties := by
    rw [State.complete, State.complete, harrivals]
  constructor
  · rw [harrived]
    exact h.arrived
  · rw [harrived]
    exact h.arrived_lt
  · rw [harrived, harrivals]
    exact h.phase
  · rw [hcomplete, hticket]
    exact h.late
  · intro u hu
    rw [hcomplete, hticket]
    exact h.early u ((hactive u).mp hu)
  · intro u hu
    rw [hticket, harrivals, hproceeded]
    exact h.tickets u ((hactive u).mp hu)
  · intro u v hu hv
    rw [hticket]
    exact h.injective u v ((hactive u).mp hu) ((hactive v).mp hv)
  · intro i hi
    rw [harrivals, hproceeded, hticket]
    intro hle
    obtain hin | ⟨u, hu, heq⟩ := h.covered i hi hle
    · exact .inl hin
    · exact .inr ⟨u, (hactive u).mpr hu, heq⟩
  · rw [hproceeded]
    exact h.nodup
  · rw [hproceeded, hcomplete]
    exact h.proceeded

structure Arrival (s s' : State) (t : Nat) : Prop where
  idle : ¬s.Active t
  active : ∀ u, s'.Active u ↔ u = t ∨ s.Active u
  arrivals : s'.arrivals = s.arrivals + 1
  ticket : s'.ticket = Function.update s.ticket t (s.arrivals + 1)
  proceeded : s'.proceeded = s.proceeded

theorem Arrival.ticket_self (h : Arrival s s' t) : s'.ticket t = s.arrivals + 1 := by
  rw [h.ticket, Function.update_self]

theorem Arrival.ticket_of_ne (h : Arrival s s' t) (hu : u ≠ t) : s'.ticket u = s.ticket u := by
  rw [h.ticket, Function.update_of_ne hu]

theorem Arrival.ne (h : Arrival s s' t) (hu : s.Active u) : u ≠ t := fun heq =>
  h.idle (heq ▸ hu)

theorem Counts.arrival (h : Counts parties s line) (harrival : Arrival s s' t)
    {line' : List Nat} (harrived : s'.arrived = line'.length) (hlt : s'.arrived < parties)
    (hphase : s'.arrivals % parties = s'.arrived)
    (hcomplete : s.complete parties ≤ s'.complete parties)
    (hlate : ∀ u ∈ line', s'.complete parties < s'.ticket u)
    (hearly : ∀ u, s'.Active u → u ∉ line' → s'.ticket u ≤ s'.complete parties) :
    Counts parties s' line' where
  arrived := harrived
  arrived_lt := hlt
  phase := hphase
  late := hlate
  early := hearly
  tickets := by
    intro u hu
    rw [harrival.arrivals, harrival.proceeded]
    obtain rfl | hu := (harrival.active u).mp hu
    · have hadd := h.complete_add
      rw [harrival.ticket_self]
      refine ⟨Nat.le_add_left 1 _, Nat.le_refl _, fun hin => ?_⟩
      have hle := (h.proceeded _ hin).2
      omega
    · obtain ⟨hpos, hle, hout⟩ := h.tickets u hu
      rw [harrival.ticket_of_ne (harrival.ne hu)]
      exact ⟨hpos, Nat.le_succ_of_le hle, hout⟩
  injective := by
    intro u v hu hv heq
    -- the new ticket is above all others
    have hnew : ∀ w, s.Active w → s'.ticket w ≠ s'.ticket t := by
      intro w hw hsame
      rw [harrival.ticket_self, harrival.ticket_of_ne (harrival.ne hw)] at hsame
      have hle := (h.tickets w hw).2.1
      omega
    obtain rfl | hu := (harrival.active u).mp hu
    · obtain rfl | hv := (harrival.active v).mp hv
      · rfl
      · exact absurd heq.symm (hnew v hv)
    · obtain rfl | hv := (harrival.active v).mp hv
      · exact absurd heq (hnew u hu)
      · rw [harrival.ticket_of_ne (harrival.ne hu), harrival.ticket_of_ne (harrival.ne hv)] at heq
        exact h.injective u v hu hv heq
  covered := by
    intro i hi hle
    rw [harrival.arrivals] at hle
    rw [harrival.proceeded]
    by_cases hlast : i = s.arrivals + 1
    · exact .inr ⟨t, (harrival.active t).mpr (.inl rfl), by rw [harrival.ticket_self, hlast]⟩
    · obtain hin | ⟨u, hu, heq⟩ := h.covered i hi (by omega)
      · exact .inl hin
      · refine .inr ⟨u, (harrival.active u).mpr (.inr hu), ?_⟩
        rw [harrival.ticket_of_ne (harrival.ne hu), heq]
  nodup := by
    rw [harrival.proceeded]
    exact h.nodup
  proceeded := by
    intro i hi
    rw [harrival.proceeded] at hi
    obtain ⟨hpos, hle⟩ := h.proceeded i hi
    exact ⟨hpos, Nat.le_trans hle hcomplete⟩

theorem mod_succ {n p r : Nat} (hr : n % p = r) (hlt : r < p) :
    (n + 1) % p = if r + 1 = p then 0 else r + 1 := by
  rw [← Nat.mod_add_mod, hr]
  split
  case isTrue heq => rw [heq, Nat.mod_self]
  case isFalse hne => exact Nat.mod_eq_of_lt (by omega)

/-- The arrival is not the last one of its phase. -/
theorem Counts.push (h : Counts parties s line) (harrival : Arrival s s' t)
    (hmore : s.arrived + 1 ≠ parties) (harrived : s'.arrived = s.arrived + 1) :
    Counts parties s' (t :: line) := by
  have hlt := h.arrived_lt
  have hphase : s'.arrivals % parties = s'.arrived := by
    rw [harrival.arrivals, mod_succ h.phase hlt, if_neg hmore, harrived]
  have hadd := h.complete_add
  have hcomplete : s'.complete parties = s.complete parties := by
    have hadd' := Nat.div_add_mod' s'.arrivals parties
    rw [hphase, harrival.arrivals, harrived, ← harrival.arrivals] at hadd'
    have harrivals := harrival.arrivals
    unfold State.complete at hadd ⊢
    omega
  apply h.arrival harrival
  · rw [harrived, h.arrived, List.length_cons]
  · omega
  · exact hphase
  · exact Nat.le_of_eq hcomplete.symm
  · intro u hu
    rw [hcomplete]
    obtain rfl | hu' := List.mem_cons.mp hu
    · rw [harrival.ticket_self]
      omega
    · by_cases heq : u = t
      · rw [heq, harrival.ticket_self]
        omega
      · rw [harrival.ticket_of_ne heq]
        exact h.late u hu'
  · intro u hu hout
    rw [List.mem_cons, not_or] at hout
    rw [hcomplete, harrival.ticket_of_ne hout.1]
    exact h.early u (((harrival.active u).mp hu).resolve_left hout.1) hout.2

/-- The arrival makes its phase full. -/
theorem Counts.detach (h : Counts parties s line) (harrival : Arrival s s' t)
    (hfull : s.arrived + 1 = parties) (harrived : s'.arrived = 0) : Counts parties s' [] := by
  have hlt := h.arrived_lt
  have hphase : s'.arrivals % parties = s'.arrived := by
    rw [harrival.arrivals, mod_succ h.phase hlt, if_pos hfull, harrived]
  have hadd := h.complete_add
  have hcomplete : s'.complete parties = s.arrivals + 1 := by
    have hadd' := Nat.div_add_mod' s'.arrivals parties
    rw [hphase, harrived, Nat.add_zero] at hadd'
    rw [State.complete, hadd', harrival.arrivals]
  apply h.arrival harrival
  · exact harrived
  · omega
  · exact hphase
  · omega
  · exact fun u hu => absurd hu List.not_mem_nil
  · intro u hu _
    rw [hcomplete]
    obtain rfl | hu := (harrival.active u).mp hu
    · exact Nat.le_of_eq harrival.ticket_self
    · rw [harrival.ticket_of_ne (harrival.ne hu)]
      exact Nat.le_succ_of_le (h.tickets u hu).2.1

theorem Counts.proceed (h : Counts parties s line) (hu : s.Active u) (hout : u ∉ line)
    (hactive : ∀ v, s'.Active v ↔ v ≠ u ∧ s.Active v) (harrived : s'.arrived = s.arrived)
    (harrivals : s'.arrivals = s.arrivals) (hticket : s'.ticket = s.ticket)
    (hproceeded : s'.proceeded = s.ticket u :: s.proceeded) : Counts parties s' line := by
  have hcomplete : s'.complete parties = s.complete parties := by
    rw [State.complete, State.complete, harrivals]
  constructor
  · rw [harrived]
    exact h.arrived
  · rw [harrived]
    exact h.arrived_lt
  · rw [harrived, harrivals]
    exact h.phase
  · rw [hcomplete, hticket]
    exact h.late
  · intro v hv
    rw [hcomplete, hticket]
    exact h.early v ((hactive v).mp hv).2
  · intro v hv
    obtain ⟨hne, hv⟩ := (hactive v).mp hv
    obtain ⟨hpos, hle, hnot⟩ := h.tickets v hv
    rw [hticket, harrivals, hproceeded, List.mem_cons, not_or]
    exact ⟨hpos, hle, fun heq => hne (h.injective v u hv hu heq), hnot⟩
  · intro v w hv hw
    rw [hticket]
    exact h.injective v w ((hactive v).mp hv).2 ((hactive w).mp hw).2
  · intro i hi hle
    rw [harrivals] at hle
    rw [hproceeded, hticket, List.mem_cons]
    obtain hin | ⟨v, hv, heq⟩ := h.covered i hi hle
    · exact .inl (.inr hin)
    · by_cases hvu : v = u
      · rw [hvu] at heq
        exact .inl (.inl heq.symm)
      · exact .inr ⟨v, (hactive v).mpr ⟨hvu, hv⟩, heq⟩
  · rw [hproceeded]
    exact List.nodup_cons.mpr ⟨(h.tickets u hu).2.2, h.nodup⟩
  · intro i hi
    rw [hproceeded, List.mem_cons] at hi
    rw [hcomplete]
    obtain rfl | hi := hi
    · exact ⟨(h.tickets u hu).1, h.early u hu hout⟩
    · exact h.proceeded i hi

theorem Counts.length_le (h : Counts parties s line) :
    s.proceeded.length ≤ s.complete parties := by
  have hsub : s.proceeded.toFinset ⊆ Finset.Icc 1 (s.complete parties) := by
    intro i hi
    rw [Finset.mem_Icc]
    exact h.proceeded i (List.mem_toFinset.mp hi)
  have hcard := Finset.card_le_card hsub
  rw [List.toFinset_card_of_nodup h.nodup, Nat.card_Icc] at hcard
  omega

end Counting

/-! ## Runs -/

section Runs

variable {parties : Nat} {s s' : State} {t : Nat}

theorem inv_new (hp : 1 ≤ parties) (nodes : Nat → Node) : Inv parties (.new nodes) := by
  refine ⟨fun _ => [], ⟨custody_nil, rfl, ?_, nofun, nofun, rfl, fun _ => rfl⟩, ?_⟩
  · intro u
    exact ⟨fun ⟨_, hi⟩ => absurd hi List.not_mem_nil, fun ⟨_, ha⟩ => absurd ha nofun⟩
  · have hcomplete : (State.new nodes).complete parties = 0 := by
      rw [State.complete, State.new, Nat.zero_div, Nat.zero_mul]
    exact {
      arrived := rfl
      arrived_lt := hp
      phase := Nat.zero_mod _
      late := fun _ hu => absurd hu List.not_mem_nil
      early := fun _ hu => absurd hu nofun
      tickets := fun _ hu => absurd hu nofun
      injective := fun _ _ hu => absurd hu nofun
      covered := fun i hi hle => absurd (Nat.le_trans hi hle) (Nat.not_succ_le_zero 0)
      nodup := List.nodup_nil
      proceeded := fun _ hi => absurd hi List.not_mem_nil }

theorem Inv.inner (h : Inv parties s) (hstep : Inner s s') : Inv parties s' := by
  obtain ⟨boxes, hlists, hcounts⟩ := h
  cases hstep with
  | next t a list hpc =>
      refine ⟨boxes, hlists.next hpc, hcounts.still (fun u => ?_) rfl rfl rfl rfl⟩
      exact active_of_same rfl (by rw [hpc]; rfl)
  | load t a list next hpc =>
      refine ⟨boxes, hlists.load hpc, hcounts.still (fun u => ?_) rfl rfl rfl rfl⟩
      exact active_of_same rfl (by rw [hpc]; rfl)
  | spawn t a u tid next hpc =>
      have hgrip := hlists.hands t
      rw [hpc] at hgrip
      obtain ⟨rest, hbox, hnext⟩ := hgrip
      refine ⟨_, hlists.spawn hpc hbox hnext, ?_⟩
      rw [spawned_line]
      exact hcounts.still (fun u => active_of_same rfl (by rw [hpc]; rfl)) rfl rfl rfl rfl
  | finish t a hpc =>
      have hout : t ∉ boxes .line := hlists.not_mem (by rw [hpc]; nofun) .line
      have hactive : s.Active t := by
        rw [State.Active, hpc]
        rfl
      exact ⟨boxes, hlists.finish hpc,
        hcounts.proceed hactive hout (active_of_out rfl) rfl rfl rfl rfl⟩
  | resume entry hentry =>
      have hmem : entry.1 ∈ boxes .queue := by
        rw [hlists.queue]
        exact List.mem_map_of_mem hentry
      have hout : entry.1 ∉ boxes .line := fun hin =>
        absurd (hlists.custody.unique .line .queue _ hin hmem) nofun
      obtain ⟨a, ha⟩ := (hlists.waiting entry.1).mp ⟨.queue, hmem⟩
      have hactive : s.Active entry.1 := by
        rw [State.Active, ha]
        rfl
      refine ⟨_, hlists.resume hentry, ?_⟩
      rw [Function.update_of_ne (by nofun)]
      exact hcounts.proceed hactive hout (active_of_out rfl) rfl rfl rfl rfl

theorem Inv.arrive {a : Nat} (h : Inv parties s) (hpc : s.pcs t = .arriving a) :
    Inv parties (s.arrive parties t a) := by
  obtain ⟨boxes, hlists, hcounts⟩ := h
  have hidle : ¬s.Active t := by
    rw [State.Active, hpc]
    nofun
  have hactive : ∀ {s' : State} {pc : Pc}, s'.pcs = Function.update s.pcs t pc →
      pc.active = true → ∀ u, s'.Active u ↔ u = t ∨ s.Active u := by
    intro s' pc hpcs hnew u
    rw [active_of_turn hpcs]
    split
    case isTrue heq => exact ⟨fun _ => .inl heq, fun _ => hnew⟩
    case isFalse hne => exact ⟨.inr, fun hu => hu.resolve_left hne⟩
  unfold State.arrive
  by_cases hfull : s.arrived + 1 = parties
  · rw [if_pos hfull]
    refine ⟨_, hlists.detach hpc rfl rfl rfl rfl, ?_⟩
    rw [Function.update_of_ne (by nofun), Function.update_self]
    exact hcounts.detach ⟨hidle, hactive rfl rfl, rfl, rfl, rfl⟩ hfull rfl
  · rw [if_neg hfull]
    refine ⟨_, hlists.push hpc rfl rfl rfl rfl, ?_⟩
    rw [Function.update_self]
    exact hcounts.push ⟨hidle, hactive rfl rfl, rfl, rfl, rfl⟩ hfull rfl

theorem Inv.step (h : Inv parties s) (hstep : Step parties s s') : Inv parties s' := by
  cases hstep with
  | begin t a tid hpc hfree =>
      obtain ⟨boxes, hlists, hcounts⟩ := h
      have hactive : ∀ u, (s.begin t a tid).Active u ↔ s.Active u :=
        fun u => active_of_same rfl (by rw [hpc]; rfl)
      exact ⟨boxes, hlists.begin hpc hfree tid, hcounts.still hactive rfl rfl rfl rfl⟩
  | arrive t a hpc => exact h.arrive hpc
  | inner s' hinner => exact h.inner hinner
  | scribble a n hfree =>
      obtain ⟨boxes, hlists, hcounts⟩ := h
      exact ⟨boxes, hlists.setNode hfree, hcounts.still (fun _ => Iff.rfl) rfl rfl rfl rfl⟩

theorem inv_of_runs (hp : 1 ≤ parties) (h : Runs parties s) : Inv parties s := by
  induction h with
  | start nodes => exact inv_new hp nodes
  | step _ hstep ih => exact ih.step hstep

def State.Quiet (s : State) : Prop := (∀ t, (s.pcs t).walking = false) ∧ s.queue = []

theorem Inv.exact_of_quiet (h : Inv parties s) (hquiet : s.Quiet) (i : Nat) :
    i ∈ s.proceeded ↔ 1 ≤ i ∧ i ≤ s.complete parties := by
  obtain ⟨boxes, hlists, hcounts⟩ := h
  obtain ⟨hwalks, hqueue⟩ := hquiet
  constructor
  · exact hcounts.proceeded i
  · rintro ⟨hpos, hle⟩
    have hadd := hcounts.complete_add
    obtain hin | ⟨u, hu, rfl⟩ := hcounts.covered i hpos (by omega)
    · exact hin
    · exfalso
      -- whoever has arrived waits, and only in the list of the barrier
      have hwait : ∃ a, s.pcs u = .waiting a := by
        have hwalk := hwalks u
        unfold State.Active at hu
        cases hpc : s.pcs u with
        | out => rw [hpc] at hu; exact absurd hu nofun
        | arriving a => rw [hpc] at hu; exact absurd hu nofun
        | waiting a => exact ⟨a, rfl⟩
        | walk a list => rw [hpc] at hwalk; exact absurd hwalk nofun
        | load a list next => rw [hpc] at hwalk; exact absurd hwalk nofun
        | spawn a h tid next => rw [hpc] at hwalk; exact absurd hwalk nofun
      obtain ⟨i, hi⟩ := (hlists.waiting u).mpr hwait
      cases i with
      | line =>
          have hlate := hcounts.late u hi
          omega
      | hand t =>
          rw [(hlists.hands t).eq_nil (hwalks t)] at hi
          exact absurd hi List.not_mem_nil
      | queue =>
          rw [hlists.queue, hqueue] at hi
          exact absurd hi List.not_mem_nil

/-- A walk comes to its end, and the last party proceeds. -/
theorem walk_through {a : Nat} {head : Option Nat} {l : List Nat} (hpc : s.pcs t = .walk a head)
    (hl : Linked s head l) : ∃ s', Relation.ReflTransGen Inner s s' ∧
      s'.arrivals = s.arrivals ∧ s'.proceeded = s.ticket t :: s.proceeded := by
  induction l generalizing s head with
  | nil =>
      obtain rfl : head = none := hl
      exact ⟨_, .single (.finish t a hpc), rfl, rfl⟩
  | cons u l ih =>
      obtain ⟨b, rfl, -, -, hnext⟩ := hl
      have h₁ : Inner s (s.setPc t (.load a b (s.nodes b).next)) := .next t a b hpc
      have h₂ := Inner.load (s := s.setPc t (.load a b (s.nodes b).next)) t a b _
        (Function.update_self ..)
      have h₃ := Inner.spawn (s := (s.setPc t (.load a b (s.nodes b).next)).setPc t
        (.spawn a (s.nodes b).h (s.nodes b).threadId (s.nodes b).next)) t a _ _ _
        (Function.update_self ..)
      have hframe : Linked ((((s.setPc t (.load a b (s.nodes b).next)).setPc t
          (.spawn a (s.nodes b).h (s.nodes b).threadId (s.nodes b).next)).resumeOn (s.nodes b).h
            (s.nodes b).threadId).setPc t (.walk a (s.nodes b).next)) (s.nodes b).next l := by
        apply hnext.frame
        intro v _ c hc
        have hv : v ≠ t := by
          intro heq
          rw [heq, hpc] at hc
          exact absurd hc nofun
        refine ⟨?_, rfl⟩
        simp only [State.setPc, State.resumeOn, Function.update_of_ne hv]
        exact hc
      obtain ⟨s', hsteps, harrivals, hproceeded⟩ := ih (Function.update_self ..) hframe
      exact ⟨s', (((Relation.ReflTransGen.single h₁).tail h₂).tail h₃).trans hsteps,
        harrivals, hproceeded⟩

/-- The state can come to one in which one arrival more has proceeded, and nobody else
has arrived. -/
def Advances (s : State) : Prop :=
  ∃ s', Relation.ReflTransGen Inner s s' ∧ s'.arrivals = s.arrivals ∧
    s'.proceeded.length = s.proceeded.length + 1

theorem advances_of_inner (hstep : Inner s s') (harrivals : s'.arrivals = s.arrivals)
    (hproceeded : s'.proceeded = s.proceeded) (h : Advances s') : Advances s := by
  obtain ⟨s'', hsteps, harrivals', hlength⟩ := h
  refine ⟨s'', .head hstep hsteps, by rw [harrivals', harrivals], ?_⟩
  rw [hlength, hproceeded]

theorem Inv.advances_of_walk {a : Nat} {list : Option Nat} (h : Inv parties s)
    (hpc : s.pcs t = .walk a list) : Advances s := by
  obtain ⟨boxes, hlists, -⟩ := h
  have hgrip := hlists.hands t
  rw [hpc] at hgrip
  obtain ⟨s', hsteps, harrivals, hproceeded⟩ := walk_through hpc hgrip
  exact ⟨s', hsteps, harrivals, by rw [hproceeded, List.length_cons]⟩

theorem Inv.advances_of_spawn {a u : Nat} {tid : Int} {next : Option Nat} (h : Inv parties s)
    (hpc : s.pcs t = .spawn a u tid next) : Advances s := by
  have hstep := Inner.spawn t a u tid next hpc
  exact advances_of_inner hstep rfl rfl ((h.inner hstep).advances_of_walk (Function.update_self ..))

/-- What is running or scheduled goes on until one more has proceeded. -/
theorem Inv.advances (h : Inv parties s) (hbusy : ¬s.Quiet) : Advances s := by
  by_cases hwalks : ∀ t, (s.pcs t).walking = false
  · have hqueue : s.queue ≠ [] := fun hnil => hbusy ⟨hwalks, hnil⟩
    obtain ⟨entry, hentry⟩ := List.exists_mem_of_ne_nil s.queue hqueue
    exact ⟨_, .single (.resume entry hentry), rfl, rfl⟩
  · obtain ⟨t, ht⟩ := not_forall.mp hwalks
    cases hpc : s.pcs t with
    | out => rw [hpc] at ht; exact absurd rfl ht
    | arriving a => rw [hpc] at ht; exact absurd rfl ht
    | waiting a => rw [hpc] at ht; exact absurd rfl ht
    | walk a list => exact h.advances_of_walk hpc
    | load a list next =>
        have hstep := Inner.load t a list next hpc
        exact advances_of_inner hstep rfl rfl
          ((h.inner hstep).advances_of_spawn (Function.update_self ..))
    | spawn a u tid next => exact h.advances_of_spawn hpc

theorem inv_of_inners (h : Inv parties s) (hsteps : Relation.ReflTransGen Inner s s') :
    Inv parties s' := by
  induction hsteps with
  | refl => exact h
  | tail _ hstep ih => exact ih.inner hstep

theorem arrivals_of_inners (hsteps : Relation.ReflTransGen Inner s s') :
    s'.arrivals = s.arrivals := by
  induction hsteps with
  | refl => rfl
  | tail _ hstep ih =>
      rw [← ih]
      cases hstep <;> rfl

theorem Inv.rests (h : Inv parties s) :
    ∃ s', Relation.ReflTransGen Inner s s' ∧ s'.Quiet := by
  -- induction on how many of the full phases have not proceeded
  obtain ⟨n, hn⟩ : ∃ n, s.complete parties - s.proceeded.length = n := ⟨_, rfl⟩
  induction n using Nat.strongRecOn generalizing s with
  | _ n ih =>
      by_cases hquiet : s.Quiet
      · exact ⟨s, .refl, hquiet⟩
      · obtain ⟨s', hsteps, harrivals, hlength⟩ := h.advances hquiet
        have h' := inv_of_inners h hsteps
        have hle : s'.proceeded.length ≤ s'.complete parties := by
          obtain ⟨boxes, -, hcounts⟩ := h'
          exact hcounts.length_le
        have hcomplete : s'.complete parties = s.complete parties := by
          rw [State.complete, State.complete, harrivals]
        obtain ⟨s'', hsteps', hquiet'⟩ := ih (s'.complete parties - s'.proceeded.length)
          (by omega) h' rfl
        exact ⟨s'', hsteps.trans hsteps', hquiet'⟩

/-- Arrival `i` proceeds only when its phase is full, and once.  Whatever is running or
scheduled can come to rest without another arrival, and however it does, then exactly the
arrivals of the full phases have proceeded. -/
structure Cyclic (parties : Nat) (s : State) : Prop where
  safe : ∀ i ∈ s.proceeded, (i + parties - 1) / parties * parties ≤ s.arrivals
  once : s.proceeded.Nodup
  rests : ∃ s', Relation.ReflTransGen Inner s s' ∧ s'.Quiet
  exact : ∀ s', Relation.ReflTransGen Inner s s' → s'.Quiet →
    ∀ i, i ∈ s'.proceeded ↔ 1 ≤ i ∧ i ≤ s.arrivals / parties * parties

theorem cyclic_of_runs (hp : 1 ≤ parties) (h : Runs parties s) : Cyclic parties s := by
  have hinv := inv_of_runs hp h
  have hboxes := hinv
  obtain ⟨boxes, -, hcounts⟩ := hboxes
  refine ⟨fun i hi => ?_, hcounts.nodup, hinv.rests, fun s' hsteps hquiet i => ?_⟩
  · obtain ⟨hpos, hle⟩ := hcounts.proceeded i hi
    have hphase : (i + parties - 1) / parties ≤ s.arrivals / parties := by
      apply Nat.le_of_lt_succ
      apply (Nat.div_lt_iff_lt_mul hp).mpr
      rw [Nat.succ_mul]
      unfold State.complete at hle
      omega
    calc (i + parties - 1) / parties * parties
        ≤ s.arrivals / parties * parties := Nat.mul_le_mul_right parties hphase
      _ ≤ s.arrivals := Nat.div_mul_le_self s.arrivals parties
  · rw [(inv_of_inners hinv hsteps).exact_of_quiet hquiet, State.complete,
      arrivals_of_inners hsteps]

/-- Two coroutines meet at a barrier for two: the second one walks the list. -/
theorem two_meet : ∃ s, Runs 2 s ∧ s.arrivals = 2 ∧ Cyclic 2 s := by
  have h₀ : Runs 2 (.new fun _ => ⟨0, none, 0⟩) := .start _
  have h₁ := h₀.step (.begin 0 0 0 rfl nofun)
  have h₂ := h₁.step (.arrive 0 0 rfl)
  have hfree : ∀ u, ((((State.new fun _ => ⟨0, none, 0⟩).begin 0 0 0).arrive 2 0 0).pcs u).addr ≠
      some 1 := by
    intro u
    cases u with
    | zero => exact fun h => absurd h (by decide)
    | succ u => exact nofun
  have h₃ := h₂.step (.begin 1 1 0 rfl hfree)
  have h₄ := h₃.step (.arrive 1 1 rfl)
  exact ⟨_, h₄, rfl, cyclic_of_runs (by decide) h₄⟩

end Runs

end Uvent.Sync.AsyncBarrier
