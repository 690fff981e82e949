import Mathlib.Data.List.Basic

/-!
# Programs that call one another

The code of a program says what it does next in each of its states: it ends with a result,
waits for an answer from outside, or calls another program and goes on with its result.
`Evaluates` reads a call as an ordinary one, which runs to its end, and lists what was waited
for with the answers.  `Step` is the same as a machine with a stack of callers, which can
stop at any time.  The two agree.
-/

namespace Uvent.Lib.CallStack

variable {S R W A : Type}

inductive Act (S R W A : Type) where
  | result (r : R)
  | wait (w : W) (next : A → S)
  | call (callee : S) (next : R → S)

inductive Evaluates (code : S → Act S R W A) : S → List (W × A) → R → Prop where
  | result {s : S} {r : R} (h : code s = .result r) : Evaluates code s [] r
  | wait {s : S} {w : W} {next : A → S} {a : A} {tr : List (W × A)} {r : R}
      (h : code s = .wait w next) (hrest : Evaluates code (next a) tr r) :
      Evaluates code s ((w, a) :: tr) r
  | call {s callee : S} {next : R → S} {tr tr' : List (W × A)} {r r' : R}
      (h : code s = .call callee next) (hcallee : Evaluates code callee tr r)
      (hrest : Evaluates code (next r) tr' r') : Evaluates code s (tr ++ tr') r'

inductive Performs (code : S → Act S R W A) : S → List (W × A) → Prop where
  | here (s : S) : Performs code s []
  | wait {s : S} {w : W} {next : A → S} {a : A} {tr : List (W × A)}
      (h : code s = .wait w next) (hrest : Performs code (next a) tr) :
      Performs code s ((w, a) :: tr)
  | inside {s callee : S} {next : R → S} {tr : List (W × A)}
      (h : code s = .call callee next) (hcallee : Performs code callee tr) : Performs code s tr
  | behind {s callee : S} {next : R → S} {tr tr' : List (W × A)} {r : R}
      (h : code s = .call callee next) (hcallee : Evaluates code callee tr r)
      (hrest : Performs code (next r) tr') : Performs code s (tr ++ tr')

inductive Conf (S R W A : Type) where
  | running (s : S) (stack : List (R → S))
  | waiting (w : W) (next : A → S) (stack : List (R → S))
  | returned (r : R) (stack : List (R → S))

inductive Step (code : S → Act S R W A) : Conf S R W A → List (W × A) → Conf S R W A → Prop where
  | result {s : S} {r : R} {stack : List (R → S)} (h : code s = .result r) :
      Step code (.running s stack) [] (.returned r stack)
  | wait {s : S} {w : W} {next : A → S} {stack : List (R → S)} (h : code s = .wait w next) :
      Step code (.running s stack) [] (.waiting w next stack)
  | call {s callee : S} {next : R → S} {stack : List (R → S)} (h : code s = .call callee next) :
      Step code (.running s stack) [] (.running callee (next :: stack))
  | answer (w : W) (a : A) (next : A → S) (stack : List (R → S)) :
      Step code (.waiting w next stack) [(w, a)] (.running (next a) stack)
  | resume (r : R) (next : R → S) (stack : List (R → S)) :
      Step code (.returned r (next :: stack)) [] (.running (next r) stack)

inductive Steps (code : S → Act S R W A) : Conf S R W A → List (W × A) → Conf S R W A → Prop where
  | refl (c : Conf S R W A) : Steps code c [] c
  | tail {c c' c'' : Conf S R W A} {tr l : List (W × A)} (h : Steps code c tr c')
      (hstep : Step code c' l c'') : Steps code c (tr ++ l) c''

section Machine

variable {code : S → Act S R W A} {c c' c'' : Conf S R W A} {s : S} {r : R}
  {tr tr' l : List (W × A)} {stack : List (R → S)}

namespace Steps

theorem single (h : Step code c l c') : Steps code c l c' := .tail (.refl c) h

theorem trans (h : Steps code c tr c') (h' : Steps code c' tr' c'') :
    Steps code c (tr ++ tr') c'' := by
  induction h' with
  | refl => rwa [List.append_nil]
  | tail _ hstep ih =>
    rw [← List.append_assoc]
    exact .tail ih hstep

theorem head (hstep : Step code c l c') (h : Steps code c' tr c'') :
    Steps code c (l ++ tr) c'' :=
  (single hstep).trans h

end Steps

theorem eq_of_step (h : Step code c [] c') (h' : Step code c [] c'') : c' = c'' := by
  cases h with
  | result hcode | wait hcode | call hcode =>
    cases h' with
    | result hcode' | wait hcode' | call hcode' =>
      rw [hcode] at hcode'
      cases hcode' <;> rfl
  | resume r next stack =>
    cases h'
    rfl

/-- The machine follows a call to its end, whatever is on the stack. -/
theorem steps_of_evaluates (h : Evaluates code s tr r) (stack : List (R → S)) :
    Steps code (.running s stack) tr (.returned r stack) := by
  induction h generalizing stack with
  | result h => exact .single (.result h)
  | @wait s w next a tr r h _ ih =>
    exact .head (l := []) (.wait h) (.head (l := [(w, a)]) (.answer w a next stack) (ih stack))
  | @call s callee next tr tr' r r' h _ _ ihcallee ihrest =>
    have hcallee := ihcallee (next :: stack)
    have hrest := Steps.head (l := []) (.resume r next stack) (ihrest stack)
    exact .head (l := []) (.call h) (hcallee.trans hrest)

/-- The callers on the stack, one after the other, end with `r'` when they get `r`. -/
inductive Through (code : S → Act S R W A) : List (R → S) → R → List (W × A) → R → Prop where
  | nil (r : R) : Through code [] r [] r
  | cons {next : R → S} {stack : List (R → S)} {r r' r'' : R} {tr tr' : List (W × A)}
      (h : Evaluates code (next r) tr r') (hrest : Through code stack r' tr' r'') :
      Through code (next :: stack) r (tr ++ tr') r''

inductive Ends (code : S → Act S R W A) : Conf S R W A → List (W × A) → R → Prop where
  | running {s : S} {stack : List (R → S)} {tr tr' : List (W × A)} {r r' : R}
      (h : Evaluates code s tr r) (hrest : Through code stack r tr' r') :
      Ends code (.running s stack) (tr ++ tr') r'
  | waiting {w : W} {a : A} {next : A → S} {stack : List (R → S)} {tr tr' : List (W × A)} {r r' : R}
      (h : Evaluates code (next a) tr r) (hrest : Through code stack r tr' r') :
      Ends code (.waiting w next stack) ((w, a) :: (tr ++ tr')) r'
  | returned {stack : List (R → S)} {tr : List (W × A)} {r r' : R}
      (h : Through code stack r tr r') :
      Ends code (.returned r stack) tr r'

theorem ends_of_step (hstep : Step code c l c') (h : Ends code c' tr r) :
    Ends code c (l ++ tr) r := by
  cases hstep with
  | result hcode =>
    obtain h | h | ⟨hthrough⟩ := h
    exact .running (.result hcode) hthrough
  | wait hcode =>
    obtain h | ⟨heval, hthrough⟩ | h := h
    rw [List.nil_append, ← List.cons_append]
    exact .running (.wait hcode heval) hthrough
  | call hcode =>
    obtain ⟨heval, hthrough⟩ | h | h := h
    cases hthrough with
    | cons hnext hrest =>
      rw [List.nil_append, ← List.append_assoc]
      exact .running (.call hcode heval hnext) hrest
  | answer w a next stack =>
    obtain ⟨heval, hthrough⟩ | h | h := h
    rw [List.singleton_append]
    exact .waiting heval hthrough
  | resume r next stack =>
    obtain ⟨heval, hthrough⟩ | h | h := h
    rw [List.nil_append]
    exact .returned (.cons heval hthrough)

theorem ends_of_steps (h : Steps code c tr c') (hends : Ends code c' tr' r) :
    Ends code c (tr ++ tr') r := by
  induction h generalizing tr' with
  | refl => exact hends
  | tail _ hstep ih =>
    rw [List.append_assoc]
    exact ih (ends_of_step hstep hends)

/-- The machine ends from an empty stack with what the program evaluates to. -/
theorem evaluates_iff_steps :
    Evaluates code s tr r ↔ Steps code (.running s []) tr (.returned r []) := by
  refine ⟨fun h => steps_of_evaluates h [], fun h => ?_⟩
  have hends := ends_of_steps h (.returned (.nil r))
  rw [List.append_nil] at hends
  generalize tr = tr' at hends
  obtain ⟨heval, hthrough⟩ := hends
  cases hthrough
  rwa [List.append_nil]

inductive Goes (code : S → Act S R W A) : Conf S R W A → List (W × A) → Prop where
  | inside {s : S} {stack : List (R → S)} {tr : List (W × A)} (h : Performs code s tr) :
      Goes code (.running s stack) tr
  | behind {s : S} {stack : List (R → S)} {r : R} {tr tr' : List (W × A)}
      (h : Evaluates code s tr r) (hrest : Goes code (.returned r stack) tr') :
      Goes code (.running s stack) (tr ++ tr')
  | idle (w : W) (next : A → S) (stack : List (R → S)) : Goes code (.waiting w next stack) []
  | answered {w : W} {a : A} {next : A → S} {stack : List (R → S)} {tr : List (W × A)}
      (h : Goes code (.running (next a) stack) tr) :
      Goes code (.waiting w next stack) ((w, a) :: tr)
  | ended (r : R) (stack : List (R → S)) : Goes code (.returned r stack) []
  | resumed {r : R} {next : R → S} {stack : List (R → S)} {tr : List (W × A)}
      (h : Goes code (.running (next r) stack) tr) : Goes code (.returned r (next :: stack)) tr

theorem goes_of_step (hstep : Step code c l c') (h : Goes code c' tr) : Goes code c (l ++ tr) := by
  cases hstep with
  | result hcode => exact .behind (.result hcode) h
  | wait hcode =>
    cases h with
    | idle => exact .inside (.here _)
    | answered h =>
      cases h with
      | inside hperforms => exact .inside (.wait hcode hperforms)
      | behind heval hrest =>
        rw [List.nil_append, ← List.cons_append]
        exact .behind (.wait hcode heval) hrest
  | call hcode =>
    cases h with
    | inside hperforms => exact .inside (.inside hcode hperforms)
    | behind heval hrest =>
      cases hrest with
      | ended =>
        rw [List.nil_append]
        exact .inside (.behind hcode heval (.here _))
      | resumed h =>
        cases h with
        | inside hperforms =>
          rw [List.nil_append]
          exact .inside (.behind hcode heval hperforms)
        | behind heval' hrest =>
          rw [List.nil_append, ← List.append_assoc]
          exact .behind (.call hcode heval heval') hrest
  | answer w a next stack => exact .answered h
  | resume r next stack => exact .resumed h

theorem goes_of_steps (h : Steps code c tr c') (hgoes : Goes code c' tr') :
    Goes code c (tr ++ tr') := by
  induction h generalizing tr' with
  | refl => exact hgoes
  | tail _ hstep ih =>
    rw [List.append_assoc]
    exact ih (goes_of_step hstep hgoes)

theorem Goes.here (c : Conf S R W A) : Goes code c [] := by
  cases c with
  | running s stack => exact .inside (.here s)
  | waiting w next stack => exact .idle w next stack
  | returned r stack => exact .ended r stack

theorem performs_of_evaluates (h : Evaluates code s tr r) : Performs code s tr := by
  induction h with
  | result h => exact .here _
  | wait h _ ih => exact .wait h ih
  | call h hcallee _ _ ih => exact .behind h hcallee ih

theorem performs_of_steps (h : Steps code (.running s []) tr c) : Performs code s tr := by
  have hgoes := goes_of_steps h (.here c)
  rw [List.append_nil] at hgoes
  generalize hc : Conf.running s [] = c₀ at hgoes
  cases hgoes with
  | inside hperforms =>
    cases hc
    exact hperforms
  | behind heval hrest =>
    cases hc
    cases hrest
    rw [List.append_nil]
    exact performs_of_evaluates heval
  | idle | answered | ended | resumed => cases hc

end Machine

end Uvent.Lib.CallStack
