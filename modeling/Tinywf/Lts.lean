import Mathlib.Tactic.Common
/-!
# Lts — the states a labelled transition system reaches

`Reaches step ok s t`: from `s` a run of steps leads to `t`, every one of which met the condition `ok` on the state it
was taken in.  With no condition it is every run (`Reaches.anyway`); an invariant of the steps that meet the condition
holds of every state reached (`Reaches.keeps`), and one invariant may be used in proving another (`Reaches.keeps_of`).
A run whose steps all lower a bound ends (`not_endless`).
-/
namespace Lts

variable {σ ι : Type*} {step : σ → ι → σ → Prop} {ok ok' : σ → ι → Prop} {s t u : σ}

inductive Reaches (step : σ → ι → σ → Prop) (ok : σ → ι → Prop) (s : σ) : σ → Prop
  | start : Reaches step ok s s
  | next {t u : σ} {a : ι} (before : Reaches step ok s t) (meets : ok t a) (taken : step t a u) : Reaches step ok s u

/-- No condition. -/
def always (_ : σ) (_ : ι) : Prop := True

namespace Reaches

theorem mono (weaker : ∀ s a, ok s a → ok' s a) (h : Reaches step ok s t) : Reaches step ok' s t := by
  induction h with
  | start => exact .start
  | next _ meets taken ih => exact .next ih (weaker _ _ meets) taken

theorem anyway (h : Reaches step ok s t) : Reaches step always s t := h.mono fun _ _ _ => trivial

theorem trans (h : Reaches step ok s t) (h' : Reaches step ok t u) : Reaches step ok s u := by
  induction h' with
  | start => exact h
  | next _ meets taken ih => exact .next ih meets taken

/-- **What every step keeps holds of every state reached.** -/
theorem keeps {P : σ → Prop} (keep : ∀ s a t, P s → ok s a → step s a t → P t) (hs : P s) (h : Reaches step ok s t) :
    P t := by
  induction h with
  | start => exact hs
  | next _ meets taken ih => exact keep _ _ _ ih meets taken

/-- An invariant kept by steps out of states where another is known. -/
theorem keeps_of {P Q : σ → Prop} (known : ∀ t, Reaches step ok s t → Q t)
    (keep : ∀ s a t, Q s → P s → ok s a → step s a t → P t) (hs : P s) (h : Reaches step ok s t) : P t := by
  induction h with
  | start => exact hs
  | next before meets taken ih => exact keep _ _ _ (known _ before) ih meets taken

end Reaches

/-- A run from `s` that takes step after step. -/
def Endless (step : σ → ι → σ → Prop) (s : σ) : Prop := ∃ r : Nat → σ, r 0 = s ∧ ∀ n, ∃ a, step (r n) a (r (n + 1))

/-- **A run ends when every step lowers a bound.** -/
theorem not_endless {P : σ → Nat → Prop} {m : Nat} (start : P s m)
    (lower : ∀ s a t m, P s m → step s a t → ∃ k < m, P t k) : ¬ Endless step s := by
  rintro ⟨r, rfl, hr⟩
  have hall : ∀ n, ∃ k, k + n ≤ m ∧ P (r n) k := by
    intro n
    induction n with
    | zero => exact ⟨m, Nat.le_refl m, start⟩
    | succ n ih =>
      obtain ⟨k, hk, hP⟩ := ih
      obtain ⟨a, ha⟩ := hr n
      obtain ⟨k', hlt, hP'⟩ := lower _ a _ k hP ha
      exact ⟨k', by omega, hP'⟩
  obtain ⟨k, hk, -⟩ := hall (m + 1)
  omega

end Lts
