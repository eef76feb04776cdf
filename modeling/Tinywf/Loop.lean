import Mathlib.Tactic.Common
/-!
# Loop — `do … while` loops over a growing input

A loop body makes one pass: it asks for another, or leaves with a result.  `doWhile` runs a body with fuel; the rules
are those a verification of a loop needs: fuel does not matter once it suffices (`doWhile_mono`), a measure gives
enough of it (`doWhile_total`), an invariant reaches the exit (`doWhile_post`).

`Resumable` is the law of an incremental parser's loop: a pass that did not ask for more input makes the same decision
when input is appended, and a pass that asked for more changed nothing but scratch.  Stopping such a loop for want of
input and entering it again with more is running it once (`Resumable.resume`).
-/
namespace Loop

variable {σ ρ β : Type*}

inductive Pass (σ ρ : Type*) where
  | again (s : σ)
  | exit (r : ρ) (s : σ)

/-- `do { body } while (again)`; `none` when the fuel runs out. -/
def doWhile (body : σ → Pass σ ρ) : Nat → σ → Option (ρ × σ)
  | 0, _ => none
  | n + 1, s => match body s with
    | .again s' => doWhile body n s'
    | .exit r s' => some (r, s')

theorem doWhile_again {body : σ → Pass σ ρ} {s s' : σ} (h : body s = .again s') (n : Nat) :
    doWhile body (n + 1) s = doWhile body n s' := by
  rw [doWhile, h]

theorem doWhile_exit {body : σ → Pass σ ρ} {s s' : σ} {r : ρ} (h : body s = .exit r s') (n : Nat) :
    doWhile body (n + 1) s = some (r, s') := by
  rw [doWhile, h]

theorem doWhile_mono {body : σ → Pass σ ρ} : ∀ {n m : Nat} {s : σ} {x : ρ × σ},
    doWhile body n s = some x → n ≤ m → doWhile body m s = some x
  | 0, _, _, _, h, _ => by cases h
  | n + 1, 0, _, _, _, hm => by omega
  | n + 1, m + 1, s, x, h, hm => by
    cases hb : body s with
    | again s' =>
      rw [doWhile_again hb] at h ⊢
      exact doWhile_mono h (by omega)
    | exit r s' => rw [doWhile_exit hb] at h ⊢; exact h

/-- Two runs that both end agree. -/
theorem doWhile_unique {body : σ → Pass σ ρ} {n m : Nat} {s : σ} {x y : ρ × σ}
    (hn : doWhile body n s = some x) (hm : doWhile body m s = some y) : x = y := by
  have h1 := doWhile_mono hn (Nat.le_max_left n m)
  have h2 := doWhile_mono hm (Nat.le_max_right n m)
  exact Option.some.inj (h1.symm.trans h2)

/-- **A measure that every further pass decreases bounds the passes.** -/
theorem doWhile_total {body : σ → Pass σ ρ} (I : σ → Prop) (μ : σ → Nat)
    (hstep : ∀ s s', I s → body s = .again s' → I s' ∧ μ s' < μ s) :
    ∀ (n : Nat) (s : σ), I s → μ s < n → ∃ x, doWhile body n s = some x
  | 0, _, _, h => absurd h (Nat.not_lt_zero _)
  | n + 1, s, hI, h => by
    cases hb : body s with
    | again s' =>
      obtain ⟨hI', hμ⟩ := hstep s s' hI hb
      rw [doWhile_again hb]
      exact doWhile_total I μ hstep n s' hI' (by omega)
    | exit r s' => exact ⟨(r, s'), doWhile_exit hb n⟩

/-- **What every pass preserves holds where the last pass begins.** -/
theorem doWhile_post {body : σ → Pass σ ρ} (I : σ → Prop) (Q : ρ → σ → Prop)
    (hstep : ∀ s s', I s → body s = .again s' → I s')
    (hexit : ∀ s r s', I s → body s = .exit r s' → Q r s') :
    ∀ {n : Nat} {s : σ} {r : ρ} {s' : σ}, I s → doWhile body n s = some (r, s') → Q r s'
  | 0, _, _, _, _, h => by cases h
  | n + 1, s, r, s', hI, h => by
    cases hb : body s with
    | again t =>
      rw [doWhile_again hb] at h
      exact doWhile_post I Q hstep hexit (hstep s t hI hb) h
    | exit r' t =>
      rw [doWhile_exit hb] at h
      cases h
      exact hexit s r s' hI hb

/-- The state a pass leaves. -/
def Pass.state : Pass σ ρ → σ
  | .again s => s
  | .exit _ s => s

/-- What no pass changes no run changes. -/
theorem doWhile_frame {body : σ → Pass σ ρ} {F : σ → σ → Prop} (hrefl : ∀ s, F s s)
    (htrans : ∀ {a b c}, F a b → F b c → F a c) (hpass : ∀ s, F s (body s).state) {n : Nat} {s s' : σ} {r : ρ}
    (h : doWhile body n s = some (r, s')) : F s s' := by
  refine doWhile_post (F s) (fun _ t => F s t) (fun t t' ht hb => ?_) (fun t r' t' ht hb => ?_) (hrefl s) h
  · have := hpass t
    rw [hb] at this
    exact htrans ht this
  · have := hpass t
    rw [hb] at this
    exact htrans ht this

/-! ## Input that arrives in pieces -/

/-- Two passes that agree up to a relation on the states. -/
inductive PassRel (R : σ → σ → Prop) : Pass σ ρ → Pass σ ρ → Prop
  | again {s t : σ} : R s t → PassRel R (.again s) (.again t)
  | exit {r : ρ} {s t : σ} : R s t → PassRel R (.exit r s) (.exit r t)

/-- **An incremental loop**: `more` is the result that asks for input, `done` the one that ends the job, `R` relates
states that differ in scratch only, `I l s` says that the state `s` belongs to the input `l`. -/
structure Resumable (body : List β → σ → Pass σ ρ) (more done : ρ) (R : σ → σ → Prop) (I : List β → σ → Prop) :
    Prop where
  more_ne : more ≠ done
  refl : ∀ s, R s s
  grow : ∀ {l s} (m : List β), I l s → I (l ++ m) s
  respects : ∀ {l s t}, R s t → I l s → I l t
  congr : ∀ {l s t}, R s t → I l s → PassRel R (body l s) (body l t)
  keeps : ∀ {l s s'}, I l s → body l s = .again s' → I l s'
  again : ∀ {l s s'} (m : List β), I l s → body l s = .again s' → body (l ++ m) s = .again s'
  exit : ∀ {l s r s'} (m : List β), I l s → body l s = .exit r s' → r ≠ more → body (l ++ m) s = .exit r s'
  frozen : ∀ {l s r s'}, I l s → body l s = .exit r s' → r ≠ done → R s s'

namespace Resumable

variable {body : List β → σ → Pass σ ρ} {more done : ρ} {R : σ → σ → Prop} {I : List β → σ → Prop}

theorem doWhile_congr (h : Resumable body more done R I) {l : List β} : ∀ {n : Nat} {s t : σ} {r : ρ} {s' : σ},
    R s t → I l s → doWhile (body l) n s = some (r, s') → ∃ t', R s' t' ∧ doWhile (body l) n t = some (r, t')
  | 0, _, _, _, _, _, _, hs => by cases hs
  | n + 1, s, t, r, s', hR, hI, hs => by
    have hp := h.congr hR hI
    cases hb : body l s with
    | again u =>
      rw [hb] at hp
      cases hc : body l t with
      | again v =>
        rw [hc] at hp
        cases hp with
        | again hR' =>
          rw [doWhile_again hb] at hs
          rw [doWhile_again hc]
          exact doWhile_congr h hR' (h.keeps hI hb) hs
      | exit _ _ => rw [hc] at hp; cases hp
    | exit r' u =>
      rw [hb] at hp
      rw [doWhile_exit hb] at hs
      cases hs
      cases hc : body l t with
      | again v => rw [hc] at hp; cases hp
      | exit _ v =>
        rw [hc] at hp
        cases hp with
        | exit hR' => exact ⟨v, hR', doWhile_exit hc n⟩

/-- A run that did not ask for input is the same run on a longer one. -/
theorem doWhile_stable (h : Resumable body more done R I) {l : List β} (m : List β) :
    ∀ {n : Nat} {s : σ} {r : ρ} {s' : σ}, I l s → doWhile (body l) n s = some (r, s') → r ≠ more →
      doWhile (body (l ++ m)) n s = some (r, s')
  | 0, _, _, _, _, hs, _ => by cases hs
  | n + 1, s, r, s', hI, hs, hr => by
    cases hb : body l s with
    | again u =>
      rw [doWhile_again hb] at hs
      rw [doWhile_again (h.again m hI hb)]
      exact doWhile_stable h m (h.keeps hI hb) hs hr
    | exit r' u =>
      rw [doWhile_exit hb] at hs
      cases hs
      rw [doWhile_exit (h.exit m hI hb hr)]

/-- **Stopping for input and entering again with more is one run.** -/
theorem resume (h : Resumable body more done R I) {l : List β} (m : List β) :
    ∀ {n k : Nat} {s s' : σ} {r : ρ} {t : σ}, I l s → doWhile (body l) n s = some (more, s') →
      doWhile (body (l ++ m)) k s = some (r, t) → ∃ t', R t t' ∧ doWhile (body (l ++ m)) k s' = some (r, t')
  | 0, _, _, _, _, _, _, hs, _ => by cases hs
  | n + 1, 0, _, _, _, _, _, _, ht => by cases ht
  | n + 1, k + 1, s, s', r, t, hI, hs, ht => by
    cases hb : body l s with
    | again u =>
      rw [doWhile_again hb] at hs
      rw [doWhile_again (h.again m hI hb)] at ht
      obtain ⟨t', hR, ht'⟩ := resume h m (h.keeps hI hb) hs ht
      exact ⟨t', hR, doWhile_mono ht' (by omega)⟩
    | exit r' u =>
      rw [doWhile_exit hb] at hs
      cases hs
      exact doWhile_congr h (h.frozen hI hb h.more_ne) (h.grow m hI) ht

/-- The state a run stops in before the end of the job belongs to its input, and the next pass there stops the same
way. -/
theorem stalled (h : Resumable body more done R I) {l : List β} : ∀ {n : Nat} {s s' : σ} {r : ρ},
    I l s → doWhile (body l) n s = some (r, s') → r ≠ done → I l s' ∧ ∃ t, body l s' = .exit r t
  | 0, _, _, _, _, hs, _ => by cases hs
  | n + 1, s, s', r, hI, hs, hr => by
    cases hb : body l s with
    | again u =>
      rw [doWhile_again hb] at hs
      exact stalled h (h.keeps hI hb) hs hr
    | exit r' u =>
      rw [doWhile_exit hb] at hs
      cases hs
      have hR := h.frozen hI hb hr
      refine ⟨h.respects hR hI, ?_⟩
      have hp := h.congr hR hI
      rw [hb] at hp
      cases hc : body l s' with
      | again v => rw [hc] at hp; cases hp
      | exit _ v => rw [hc] at hp; cases hp; exact ⟨v, rfl⟩

end Resumable

end Loop
