import Uvent.Lib.PlaceLog
import Uvent.Queue.MpmcConcurrent

/-!
# The places of a ring

The tickets of an `MPMCQueue` are places: `enq_pos_` gives them out to producers, `deq_pos_`
to consumers.
-/

namespace Uvent.Queue.Mpmc

open Uvent.Lib

variable {α : Type}

def Ring.places (q : Ring α) : PlaceLog Nat α where
  put x := (q.put x).head?
  taker x := (q.takers x).head?
  given x := (q.returned x).head?.map Prod.fst

def Pc.job : Pc α → Job α
  | .ret _ => .rest
  | .loadEnq v | .enqSeq v _ | .casEnq v _ => .put v false
  | .construct v _ | .built v _ | .publish v _ => .put v true
  | .loadDeq | .deqSeq _ | .casDeq _ | .move _ | .destroy .. | .release .. => .take

def Result.reply : Result α → Option (Reply α)
  | .none => .none
  | .enqueued ok => some (.sent ok)
  | .empty => some .empty
  | .taken out => out.map .taken

def Pc.reply : Pc α → Option (Reply α)
  | .ret r => r.reply
  | _ => none

theorem Pc.busy_of_job {pc : Pc α} (h : pc.job ≠ .rest) : pc.busy = true := by
  cases pc with
  | ret r => exact absurd rfl h
  | loadEnq | enqSeq | casEnq | construct | built | publish | loadDeq | deqSeq | casDeq | move
  | destroy | release => rfl

section Steps

variable {cap t : Nat} {stage : Nat → Stage α} {w : World Nat (Ring α) (Pc α)} {pc : Pc α}

/-- Only producers that won a ticket are before `enq_pos_`. -/
theorem Fits.put_iff {q : Ring α} (h : Fits cap stage q) (x : Nat) :
    q.places.put x ≠ none ↔ x < q.enqPos := by
  rw [h.enq x]
  change (q.put x).head? ≠ none ↔ _
  rw [h.put x]
  cases stage x with
  | unclaimed => exact iff_of_false (fun hne => hne rfl) fun hne => hne rfl
  | putting | published | taking | returned => exact iff_of_true nofun nofun

theorem Fits.taker_iff {q : Ring α} (h : Fits cap stage q) (x : Nat) :
    q.places.taker x ≠ none ↔ x < q.deqPos := by
  rw [h.deq x]
  change (q.takers x).head? ≠ none ↔ _
  rw [h.takers x, ne_eq, List.head?_eq_none_iff]

theorem Holds.takes (h : Holds cap stage w) {x c : Nat} (hput : w.shared.places.put x ≠ none)
    (htaker : w.shared.places.taker x = some c) (hgiven : w.shared.places.given x = none) :
    (w.own c).job = .take := by
  change (w.shared.put x).head? ≠ none at hput
  change (w.shared.takers x).head? = some c at htaker
  change (w.shared.returned x).head?.map Prod.fst = none at hgiven
  rw [h.fits.put x] at hput
  rw [h.fits.takers x] at htaker
  rw [h.fits.returned x] at hgiven
  match hstage : stage x with
  | .unclaimed | .putting .. | .published .. =>
    rw [hstage] at htaker
    cases htaker
  | .returned p v d =>
    rw [hstage] at hgiven
    cases hgiven
  | .taking p v d phase =>
    rw [hstage] at htaker
    cases htaker
    obtain ⟨pc, hwork⟩ : ∃ pc, (stage x).work x = some (c, pc) ∧ pc.job = .take := by
      rw [hstage]
      cases phase <;> exact ⟨_, rfl, rfl⟩
    rw [h.busy x c pc hwork.1]
    exact hwork.2

theorem places_setSeq (q : Ring α) (pos seq : Nat) : (q.setSeq cap pos seq).places = q.places := rfl

theorem places_winEnq (q : Ring α) {pos : Nat} (v : α) (hnone : q.put pos = []) :
    (q.winEnq t v pos).places = q.places.setPut pos t v := by
  have hput : (fun x => (Function.update q.put pos (q.put pos ++ [(t, v)]) x).head?) =
      Function.update (fun x => (q.put x).head?) pos (some (t, v)) := by
    funext x
    by_cases hx : x = pos
    · subst hx
      rw [Function.update_self, Function.update_self, hnone]
      rfl
    · rw [Function.update_of_ne hx, Function.update_of_ne hx]
  exact congrArg (PlaceLog.mk · _ _) hput

theorem places_winDeq (q : Ring α) {pos : Nat} (hnone : q.takers pos = []) :
    (q.winDeq t pos).places = q.places.setTaker pos t := by
  have htaker : (fun x => (Function.update q.takers pos (q.takers pos ++ [t]) x).head?) =
      Function.update (fun x => (q.takers x).head?) pos (some t) := by
    funext x
    by_cases hx : x = pos
    · subst hx
      rw [Function.update_self, Function.update_self, hnone]
      rfl
    · rw [Function.update_of_ne hx, Function.update_of_ne hx]
  exact congrArg (PlaceLog.mk _ · _) htaker

theorem places_return (q : Ring α) {pos : Nat} (out : Option α) (hnone : q.returned pos = []) :
    (q.return_ t pos out).places = q.places.setGiven pos t := by
  have hgiven : (fun x => ((Function.update q.returned pos (q.returned pos ++ [(t, out)]) x).head?).map
      Prod.fst) = Function.update (fun x => (q.returned x).head?.map Prod.fst) pos (some t) := by
    funext x
    by_cases hx : x = pos
    · subst hx
      rw [Function.update_self, Function.update_self, hnone]
      rfl
    · rw [Function.update_of_ne hx, Function.update_of_ne hx]
  exact congrArg (PlaceLog.mk _ _ ·) hgiven

theorem Holds.puts (h : Holds cap stage w) (hcap : 0 < cap) {pos : Nat} (v : α)
    (hpos : w.shared.enqPos = pos) :
    w.shared.places.Moves False t (.put v false) none (w.shared.winEnq t v pos).places
      (.put v true) := by
  have hnone : w.shared.put pos = [] := by
    rw [h.fits.put pos]
    by_contra hput
    refine absurd ((h.fits.enq pos).mpr fun hfree => ?_) (by omega)
    rw [hfree] at hput
    exact hput rfl
  rw [places_winEnq _ v hnone]
  refine .puts pos v (fun y hy => ?_) fun _ y hy => ?_
  · have := (h.fits.put_iff y).mp hy
    omega
  · by_contra htaker
    have hlt := (h.fits.taker_iff y).mp htaker
    have hwindow := h.fits.window hcap
    omega

theorem Holds.claims (h : Holds cap stage w) {pos : Nat} (hpos : w.shared.deqPos = pos) :
    w.shared.places.Moves False t .take none (w.shared.winDeq t pos).places .take := by
  have hnone : w.shared.takers pos = [] := by
    rw [h.fits.takers pos]
    by_contra htaken
    exact absurd ((h.fits.deq pos).mpr htaken) (by omega)
  rw [places_winDeq _ hnone]
  refine .claims pos ?_ fun y hy _ => ?_
  · change (w.shared.takers pos).head? = none
    rw [hnone]
    rfl
  · exact (h.fits.taker_iff y).mpr (by omega)

theorem Holds.gives (h : Holds cap stage w) {pos : Nat} {out : Option α}
    (hpc : w.own t = .release pos out) :
    w.shared.places.Moves False t .take (out.map .taken)
      ((w.shared.setSeq cap pos (pos + cap)).return_ t pos out).places .rest := by
  have hheld := h.held t pos (by rw [hpc]; rfl)
  rw [hpc] at hheld
  obtain ⟨p, v, rfl, hstage⟩ := Stage.of_work_release hheld
  have hnone : w.shared.returned pos = [] := by
    rw [h.fits.returned pos, hstage]
    rfl
  have hput : w.shared.places.put pos = some (p, v) := by
    change (w.shared.put pos).head? = _
    rw [h.fits.put pos, hstage]
    rfl
  have htaker : w.shared.places.taker pos = some t := by
    change (w.shared.takers pos).head? = _
    rw [h.fits.takers pos, hstage]
    rfl
  have hgiven : w.shared.places.given pos = none := by
    change (w.shared.returned pos).head?.map Prod.fst = _
    rw [hnone]
    rfl
  rw [places_return (w.shared.setSeq cap pos (pos + cap)) (some v) hnone, places_setSeq]
  exact .gives pos p v hput htaker hgiven

/-- A step of a call of the ring, seen at the places. -/
theorem Holds.moves (h : Holds cap stage w) (hcap : 0 < cap) (spurious : Bool) (hpc : w.own t = pc)
    (hjob : pc.job ≠ .rest) :
    w.shared.places.Moves False t pc.job (Mpmc.exec cap t spurious w.shared pc).2.reply
      (Mpmc.exec cap t spurious w.shared pc).1.places (Mpmc.exec cap t spurious w.shared pc).2.job := by
  cases pc with
  | ret r => exact absurd rfl hjob
  | loadEnq v => exact .same _
  | loadDeq => exact .same _
  | enqSeq v pos =>
    simp only [Mpmc.exec]
    split
    · exact .same _
    · split
      · exact .full v
      · exact .same _
  | deqSeq pos =>
    simp only [Mpmc.exec]
    split
    · exact .same _
    · split
      · exact .empty False.elim
      · exact .same _
  | casEnq v pos =>
    simp only [Mpmc.exec]
    split
    · rename_i hwin
      exact h.puts hcap v hwin.1
    · exact .same _
  | casDeq pos =>
    simp only [Mpmc.exec]
    split
    · rename_i hwin
      exact h.claims hwin.1
    · exact .same _
  | construct v pos => exact .same _
  | built v pos => exact .same _
  | publish v pos => exact .sent v
  | move pos => exact .same _
  | destroy pos out => exact .same _
  | release pos out => exact h.gives hpc

end Steps

end Uvent.Queue.Mpmc
