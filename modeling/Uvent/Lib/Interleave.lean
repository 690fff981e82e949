import Mathlib.Logic.Function.Basic

/-!
# Interleaved threads

Threads of one program over a shared state, each with a state of its own; a step
of the system is a step of one thread.  An invariant of the whole system is
proved from what a thread does to the shared state and its own, and from what
the others may rely on.
-/

namespace Uvent.Lib

variable {T σ ℓ : Type}

structure World (T σ ℓ : Type) where
  shared : σ
  own : T → ℓ

/-- The states reached from `s₀`, with every thread at `l₀`, by steps of single
threads in any order. -/
inductive Interleaved [DecidableEq T] (step : T → σ → ℓ → σ → ℓ → Prop) (s₀ : σ) (l₀ : ℓ) :
    World T σ ℓ → Prop where
  | start : Interleaved step s₀ l₀ ⟨s₀, fun _ => l₀⟩
  | step {w : World T σ ℓ} {t : T} {s : σ} {l : ℓ} (hw : Interleaved step s₀ l₀ w)
      (hstep : step t w.shared (w.own t) s l) :
      Interleaved step s₀ l₀ ⟨s, Function.update w.own t l⟩

/-- A step of a thread keeps the shared invariant and its own, and does to the
shared state only what every other thread relies on. -/
structure RelyGuarantee (step : T → σ → ℓ → σ → ℓ → Prop) (s₀ : σ) (l₀ : ℓ) where
  shared : σ → Prop
  own : T → σ → ℓ → Prop
  rely : T → σ → σ → Prop
  start_shared : shared s₀
  start_own : ∀ t, own t s₀ l₀
  keeps : ∀ {t s l s' l'}, step t s l s' l' → shared s → own t s l →
    shared s' ∧ own t s' l' ∧ ∀ t', t' ≠ t → rely t' s s'
  stable : ∀ {t s l s'}, shared s → own t s l → rely t s s' → own t s' l

theorem RelyGuarantee.holds [DecidableEq T] {step : T → σ → ℓ → σ → ℓ → Prop} {s₀ : σ} {l₀ : ℓ}
    (rg : RelyGuarantee step s₀ l₀) {w : World T σ ℓ} (h : Interleaved step s₀ l₀ w) :
    rg.shared w.shared ∧ ∀ t, rg.own t w.shared (w.own t) := by
  induction h with
  | start => exact ⟨rg.start_shared, rg.start_own⟩
  | @step w t s l _ hstep ih =>
      obtain ⟨hshared, hown⟩ := ih
      obtain ⟨hshared', hself, hrely⟩ := rg.keeps hstep hshared (hown t)
      refine ⟨hshared', fun t' => ?_⟩
      by_cases ht : t' = t
      · subst ht
        simpa using hself
      · simpa [Function.update_of_ne ht] using rg.stable hshared (hown t') (hrely t' ht)

end Uvent.Lib
