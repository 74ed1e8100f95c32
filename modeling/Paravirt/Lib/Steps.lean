import Mathlib.Data.List.Basic

/-!
# Labelled runs

`Steps R s as t`: the transition relation `R` leads from `s` to `t` by the labels `as`, first
label first.  A run grows at its END, so that an induction sees the last step.

* `Steps.invariant`     what one step keeps, a run keeps;
* `Steps.invariant_of`  the same when every step has to meet a condition;
* `Steps.mono`          a run of a smaller relation is one of a larger.
-/

set_option linter.unusedSectionVars false

inductive Steps {σ α : Type*} (R : σ → α → σ → Prop) (s : σ) : List α → σ → Prop where
  | nil : Steps R s [] s
  | snoc {as : List α} {t u : σ} {a : α} : Steps R s as t → R t a u → Steps R s (as ++ [a]) u

namespace Steps
variable {σ α : Type*} {R : σ → α → σ → Prop}

theorem single {s t : σ} {a : α} (h : R s a t) : Steps R s [a] t := .snoc .nil h

theorem invariant {P : σ → Prop} (hstep : ∀ s a t, P s → R s a t → P t)
    {s t : σ} {as : List α} (h : Steps R s as t) (hs : P s) : P t := by
  induction h with
  | nil => exact hs
  | snoc _ hr ih => exact hstep _ _ _ ih hr

/-- a run whose steps all meet the condition `C` keeps what such steps keep -/
theorem invariant_of {P : σ → Prop} {C : σ → α → Prop}
    (hstep : ∀ s a t, P s → C s a → R s a t → P t)
    {s t : σ} {as : List α} (h : Steps (fun s a t => C s a ∧ R s a t) s as t) (hs : P s) : P t :=
  h.invariant (fun s a t hP hr => hstep s a t hP hr.1 hr.2) hs

theorem mono {R' : σ → α → σ → Prop} (hR : ∀ s a t, R s a t → R' s a t)
    {s t : σ} {as : List α} (h : Steps R s as t) : Steps R' s as t := by
  induction h with
  | nil => exact .nil
  | snoc _ hr ih => exact .snoc ih (hR _ _ _ hr)

end Steps
