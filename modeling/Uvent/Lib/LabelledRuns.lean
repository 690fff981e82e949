/-!
# Runs under a condition

A system whose steps have labels, and the states it reaches from its initial ones by steps that
meet a condition on the state before them and on their label.  `ThreadRuns` are those in which
the label of a step also says which thread makes it.
-/

namespace Uvent.Lib

variable {σ τ ε : Type}

inductive LabelledRuns (init : σ → Prop) (move : σ → ε → σ → Prop) (ok : σ → ε → Prop) :
    σ → Prop where
  | start {s : σ} (h : init s) : LabelledRuns init move ok s
  | step {s s' : σ} {e : ε} (hs : LabelledRuns init move ok s) (hstep : move s e s')
      (meets : ok s e := by exact trivial) : LabelledRuns init move ok s'

abbrev ThreadRuns (init : σ → Prop) (move : σ → τ → ε → σ → Prop) (ok : σ → τ → ε → Prop) :
    σ → Prop :=
  LabelledRuns init (fun s (l : τ × ε) s' => move s l.1 l.2 s') fun s l => ok s l.1 l.2

section Labelled

variable {init : σ → Prop} {move : σ → ε → σ → Prop} {ok ok' : σ → ε → Prop} {s : σ}

/-- What holds at the start and is kept by each step of a run holds in all of it. -/
@[elab_as_elim]
theorem LabelledRuns.holds {I : σ → Prop} (h : LabelledRuns init move ok s)
    (hstart : ∀ {s}, init s → I s)
    (hkeeps : ∀ {s e s'}, LabelledRuns init move ok s → I s → move s e s' → ok s e → I s') :
    I s := by
  induction h with
  | start h => exact hstart h
  | step hs hstep meets ih => exact hkeeps hs ih hstep meets

theorem LabelledRuns.mono (h : LabelledRuns init move ok s) (hok : ∀ s e, ok s e → ok' s e) :
    LabelledRuns init move ok' s :=
  h.holds .start fun _ ih hstep meets => ih.step hstep (hok _ _ meets)

end Labelled

section Threads

variable {init : σ → Prop} {move : σ → τ → ε → σ → Prop} {ok : σ → τ → ε → Prop} {s s' : σ} {t : τ}
  {e : ε}

theorem ThreadRuns.step (h : ThreadRuns init move ok s) (hstep : move s t e s')
    (meets : ok s t e := by exact trivial) : ThreadRuns init move ok s' :=
  LabelledRuns.step (e := (t, e)) h hstep meets

end Threads

end Uvent.Lib
