import Tinywf.WorkflowSteps
import Mathlib.Algebra.Order.BigOperators.Group.Finset
import Mathlib.Data.Fin.VecNotation
import Mathlib.Data.Fintype.EquivFin
import Mathlib.Tactic.FinCases
/-!
# SeriesParallel — series and parallel works run once and in order

Every run of a flow keeps what its phases say (`flow_ok`).  So its log has every event at most once and behind those it
has to wait for; the root's callback, which has to wait for all of them, is the last.  Each step brings some series
further, so a run ends; and where it does no series is left waiting, as then one below it would be, too.  A flow that has
ended has had all its events (`series_parallel`).
-/
namespace Tinywf

open Lts

variable {τ σ : Type*}

section Runs

variable [DecidableEq τ] [DecidableEq σ] {f : Flow τ σ} {ph : σ → Phase} {s : FlowState τ σ}

/-- The first task of the root is to be dispatched. -/
theorem Flow.start_ok (f : Flow τ σ) (nleft : τ → Nat) :
    FlowOk f (Function.update (fun _ => .idle) f.root (.running 0 .linked)) (f.start nleft) := by
  have hidle : FlowLocal f (fun _ => .idle) { f.start nleft with threads := [] } := by
    refine ⟨fun x k st hx => (by cases hx), List.nodup_nil, fun fr => ?_, fun t => ?_, fun t st ht _ => (by cases ht),
      fun x => rfl, fun x => rfl, fun e => ?_, List.nodup_nil⟩
    · exact ⟨fun h => (by cases h), fun h => (by cases h)⟩
    · exact ⟨fun h => (by cases h), fun h => (by cases h)⟩
    · refine ⟨fun h => (by cases h), fun h => ?_⟩
      cases e with
      | dispatched t => cases h
      | finished t => cases h
      | callback x => rcases h with h | h <;> cases h
  have hown : f.owner f.root = none := (f.owner_root f.root).2 rfl
  have hlocal : FlowLocal f (Function.update (fun _ => .idle) f.root (.running 0 .linked)) (f.start nleft) :=
    hidle.begin rfl ⟨[], List.Perm.refl _, List.Perm.refl _⟩ rfl (by
      rw [hown]
      exact (Function.update_eq_self ..).symm) rfl rfl
  refine ⟨hlocal, fun q => ?_, ?_⟩
  · have hst : f.status (Function.update (fun _ => .idle) f.root (.running 0 .linked)) q = .future ∨
        f.status (Function.update (fun _ => .idle) f.root (.running 0 .linked)) q = .now .linked := by
      by_cases hq : f.seriesOf q = f.root
      · rw [Flow.status, hq, Function.update_self, Phase.status, if_neg (Nat.not_lt_zero _)]
        split
        · exact Or.inr rfl
        · exact Or.inl rfl
      · rw [Flow.status, Function.update_of_ne hq]
        exact Or.inl rfl
    refine ⟨fun l hl i y hy => ?_, fun l hl hw => ?_, fun j hj => ?_, fun hw => ?_, fun hw => ?_⟩
    · have hy' : y ≠ f.root := by
        rintro rfl
        have := (f.mem_subs q l hl f.root).1 (List.mem_of_getElem? hy)
        rw [hown] at this
        cases this
      rw [Function.update_of_ne hy']
      rcases hst with hst | hst <;> rw [hst] <;> rfl
    · rcases hst with hst | hst <;> rw [hst] at hw <;> cases hw
    · rcases hst with hst | hst <;> rw [hst] at hj <;> cases hj
    · rcases hst with hst | hst <;> rw [hst] at hw <;> cases hw
    · rcases hst with hst | hst <;> rw [hst] at hw <;> cases hw
  · intro l₁ e l₂ hl
    have hnil : ([] : List (FlowEvent τ σ)) = l₁ ++ e :: l₂ := hl
    simp at hnil

/-- **Every state of every run is what some phases say**, with the root series begun. -/
theorem flow_ok {nleft : τ → Nat} (run : Reaches (FlowStep f) always (f.start nleft) s) :
    ∃ ph, FlowOk f ph s ∧ ph f.root ≠ .idle := by
  have hbegun : ∀ {φ : Phase}, f.left f.root φ < f.left f.root .idle → φ ≠ .idle := by
    rintro _ hlt rfl
    exact Nat.lt_irrefl _ hlt
  obtain ⟨ph, h, hroot⟩ := run.keeps
    (P := fun s => ∃ ph, FlowOk f ph s ∧ f.left f.root (ph f.root) < f.left f.root .idle) (by
      rintro s _ s' ⟨ph, h, hroot⟩ _ step
      obtain ⟨ph', h', hlater⟩ := step.ok h
      exact ⟨ph', h', Nat.lt_of_le_of_lt (hlater.1 f.root) hroot⟩)
    ⟨_, f.start_ok nleft, by rw [Function.update_self]; exact Flow.left_begin _⟩
  exact ⟨ph, h, hbegun hroot⟩

/-! ## The order -/

open Relation (TransGen ReflTransGen)

omit [DecidableEq τ] [DecidableEq σ] in
/-- What has to come before is in the log before, directly or not. -/
theorem Flow.Ordered.trans {log l₁ l₂ : List (FlowEvent τ σ)} {e e' : FlowEvent τ σ} (h : f.Ordered log)
    (hb : TransGen f.Before e' e) (hl : log = l₁ ++ e :: l₂) : e' ∈ l₁ := by
  induction hb using TransGen.head_induction_on with
  | single hb => exact h l₁ e l₂ hl _ hb
  | head hb _ ih =>
    obtain ⟨a, b, rfl⟩ := List.append_of_mem ih
    rw [List.append_assoc, List.cons_append] at hl
    exact List.mem_append_left _ (h a _ _ hl _ hb)

omit [DecidableEq τ] [DecidableEq σ] in
/-- The root's callback waits for that of every series. -/
theorem Flow.callback_root (x : σ) : ReflTransGen f.Before (.callback x) (.callback f.root) := by
  generalize hn : f.height f.root - f.height x = n
  -- up the nesting: the owner's series stands higher
  induction n using Nat.strong_induction_on generalizing x with
  | _ n ih =>
    cases hx : f.owner x with
    | none =>
      rw [(f.owner_root x).1 hx]
    | some p =>
      have hlt := f.height_lt x p hx
      have hle := f.height_root (f.seriesOf p)
      exact .head (.sub hx) (.head (.series p) (ih _ (by omega) _ rfl))

omit [DecidableEq τ] [DecidableEq σ] in
/-- The root's callback waits for everything else. -/
theorem Flow.before_root {e : FlowEvent τ σ} (he : e ≠ .callback f.root) :
    TransGen f.Before e (.callback f.root) := by
  cases e with
  | dispatched t => exact .head (.dispatched t) (.head' (.series t) (f.callback_root _))
  | finished t => exact .head' (.series t) (f.callback_root _)
  | callback x =>
    rcases Relation.reflTransGen_iff_eq_or_transGen.1 (f.callback_root x) with heq | h
    · exact absurd heq.symm he
    · exact h

omit [DecidableEq σ] in
/-- Nothing comes behind the root's callback. -/
theorem FlowOk.root_last {l₁ l₂ : List (FlowEvent τ σ)} (h : FlowOk f ph s)
    (hl : s.log = l₁ ++ .callback f.root :: l₂) : l₂ = [] := by
  have hnodup := h.here.once
  rw [hl, List.nodup_append, List.nodup_cons] at hnodup
  refine List.eq_nil_iff_forall_not_mem.2 fun e he => ?_
  have hne : e ≠ .callback f.root := by
    rintro rfl
    exact hnodup.2.1.1 he
  exact hnodup.2.2 e (h.order.trans (Flow.before_root hne) hl) e (List.mem_cons_of_mem _ he) rfl

/-! ## The end -/

/-- No thread has anything to do, and no leaf is pending. -/
def FlowEnded (f : Flow τ σ) (s : FlowState τ σ) : Prop := ∀ a s', ¬ FlowStep f s a s'

theorem FlowEnded.no_frames (h : FlowEnded f s) : s.threads.flatten = [] := by
  refine List.eq_nil_iff_forall_not_mem.2 fun fr hfr => ?_
  obtain ⟨fs, hfs, hmem⟩ := List.mem_flatten.1 hfr
  obtain ⟨l₁, l₂, hl⟩ := List.append_of_mem hfs
  cases fs with
  | nil => cases hmem
  | cons fr' fs => exact h _ _ (.call false l₁ l₂ fr' fs hl)

theorem FlowEnded.no_pending (h : FlowEnded f s) (t : τ) : s.pending t = false := by
  cases hp : s.pending t with
  | false => rfl
  | true => exact absurd (.complete t hp) (h _ _)

/-- A series has not begun, or is over and counted: one that waited would have one below it that waits. -/
theorem FlowOk.ended_phase (h : FlowOk f ph s) (he : FlowEnded f s) (x : σ) : ph x = .idle ∨ ph x = .counted := by
  generalize hn : f.height x = n
  induction n using Nat.strong_induction_on generalizing x with
  | _ n ih =>
    have hframe : f.frameOf x (ph x) = none := by
      refine Option.eq_none_iff_forall_ne_some.2 fun fr hfr => ?_
      have hhome := f.home_frameOf hfr
      have hmem := (h.here.frames fr).2 (hhome.symm ▸ hfr)
      rw [he.no_frames] at hmem
      cases hmem
    cases hx : ph x with
    | idle => exact Or.inl rfl
    | counted => exact Or.inr rfl
    | finished => rw [hx] at hframe; cases hframe
    | running k st =>
      have hk := h.here.place x k st hx
      have ht := List.getElem?_eq_getElem hk
      generalize (f.tasks x)[k] = t at ht
      have hnow := FlowLocal.status_now hx ht
      rw [hx, f.frameOf_stage ht] at hframe
      cases st with
      | pending =>
        have hp := (h.here.pending t).2 hnow
        rw [he.no_pending t] at hp
        cases hp
      | waiting =>
        obtain ⟨hpos, l, hl⟩ := (h.task t).waits hnow
        rw [(h.task t).count l hl (by rw [hnow]; rfl), List.countP_pos_iff] at hpos
        obtain ⟨y, hy, hcounted⟩ := hpos
        obtain ⟨i, hi⟩ := List.getElem?_of_mem hy
        have hidle := (h.task t).subs l hl i y hi
        rw [hnow] at hidle
        have hlt := f.height_lt y t ((f.mem_subs t l hl y).1 hy)
        rw [f.seriesOf_getElem ht] at hlt
        rcases ih _ (hn ▸ hlt) y rfl with hy' | hy'
        · exact absurd hy' hidle
        · rw [hy'] at hcounted
          cases hcounted
      | chosen => cases hframe
      | linked => cases hframe
      | looping j => cases hframe
      | done => cases hframe
      | popping => cases hframe

/-- With the root every series below it is counted. -/
theorem FlowOk.ended_counted (h : FlowOk f ph s) (he : FlowEnded f s) (hroot : ph f.root ≠ .idle) (x : σ) :
    ph x = .counted := by
  generalize hn : f.height f.root - f.height x = n
  induction n using Nat.strong_induction_on generalizing x with
  | _ n ih =>
    cases hx : f.owner x with
    | none =>
      rw [(f.owner_root x).1 hx]
      exact (h.ended_phase he f.root).resolve_left hroot
    | some p =>
      have hlt := f.height_lt x p hx
      have hle := f.height_root (f.seriesOf p)
      have hp : f.status ph p = .past := by rw [Flow.status, ih _ (by omega) (f.seriesOf p) rfl]; rfl
      obtain ⟨l, hl⟩ := Option.isSome_iff_exists.1 (f.owner_subs x p hx)
      obtain ⟨i, hi⟩ := List.getElem?_of_mem ((f.mem_subs p l hl x).2 hx)
      have hsub := (h.task p).subs l hl i x hi
      rwa [hp] at hsub

/-- Everything has happened. -/
theorem FlowOk.ended_log (h : FlowOk f ph s) (he : FlowEnded f s) (hroot : ph f.root ≠ .idle) (e : FlowEvent τ σ) :
    e ∈ s.log := by
  refine (h.here.log e).2 ?_
  cases e with
  | dispatched t => rw [Flow.happened, Flow.status, h.ended_counted he hroot]; rfl
  | finished t => rw [Flow.happened, Flow.status, h.ended_counted he hroot]; rfl
  | callback x => exact Or.inr (h.ended_counted he hroot x)

/-- A run ends: there are only so many steps left of all its series. -/
theorem flow_ends [Finite σ] (f : Flow τ σ) (nleft : τ → Nat) : ¬ Endless (FlowStep f) (f.start nleft) := by
  cases nonempty_fintype σ
  refine not_endless (P := fun s m => ∃ ph, FlowOk f ph s ∧ ∑ x, f.left x (ph x) = m) ⟨_, f.start_ok nleft, rfl⟩ ?_
  rintro s a s' m ⟨ph, h, rfl⟩ step
  obtain ⟨ph', h', hle, x, hlt⟩ := step.ok h
  exact ⟨_, Finset.sum_lt_sum (fun y _ => hle y) ⟨x, Finset.mem_univ x, hlt⟩, ph', h', rfl⟩

/-- **Every order of steps dispatches, finishes and calls back each once and in order, nothing comes behind the root's
callback, and a run goes on until everything has happened.** -/
theorem series_parallel [Finite σ] (f : Flow τ σ) (nleft : τ → Nat) :
    (∀ s, Reaches (FlowStep f) always (f.start nleft) s →
      s.log.Nodup ∧ f.Ordered s.log ∧ (∀ l₁ l₂, s.log = l₁ ++ .callback f.root :: l₂ → l₂ = []) ∧
        (FlowEnded f s → ∀ e, e ∈ s.log)) ∧
      ¬ Endless (FlowStep f) (f.start nleft) := by
  refine ⟨fun s run => ?_, flow_ends f nleft⟩
  obtain ⟨ph, h, hroot⟩ := flow_ok run
  exact ⟨h.here.once, h.order, fun _ _ hl => h.root_last hl, fun he e => h.ended_log he hroot e⟩

end Runs

/-- A leaf, then two series in parallel, one of a leaf and one of a leaf and an empty parallel work. -/
def twoInParallel : Flow (Fin 5) (Fin 3) where
  subs := ![none, some [1, 2], none, none, some []]
  first := ![0, 2, 3]
  queue := ![[], [], [4]]
  last := ![some 1, none, none]
  seriesOf := ![0, 0, 1, 2, 2]
  owner := ![none, some 1, some 1]
  root := 0
  height := ![1, 0, 0]
  mem_tasks := by decide
  nodup_tasks := by decide
  mem_subs := by
    intro p l hl
    fin_cases p <;> cases hl <;> decide
  owner_subs := by decide
  nodup_subs := by
    intro p l hl
    fin_cases p <;> cases hl <;> decide
  owner_root := by decide
  height_lt := by decide
  height_root := by decide

theorem series_parallel_two :
    (∀ s, Reaches (FlowStep twoInParallel) always (twoInParallel.start fun _ => 0) s →
      s.log.Nodup ∧ twoInParallel.Ordered s.log ∧
        (∀ l₁ l₂, s.log = l₁ ++ .callback twoInParallel.root :: l₂ → l₂ = []) ∧
        (FlowEnded twoInParallel s → ∀ e, e ∈ s.log)) ∧
      ¬ Endless (FlowStep twoInParallel) (twoInParallel.start fun _ => 0) :=
  series_parallel twoInParallel fun _ => 0

end Tinywf
