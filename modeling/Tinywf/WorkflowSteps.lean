import Tinywf.WorkflowPhase
/-!
# WorkflowSteps — what every step of a flow keeps

A parallel work and its sub-series go together (`TaskOk`): none of them has begun before its dispatch loop comes to it,
`nleft` is how many have not been counted, and once that is none the work is done.  Every step keeps this and what the
phases say, whatever other threads do, and brings some series further (`FlowStep.ok`).
-/
namespace Tinywf

variable {τ σ : Type*}

/-! ## A parallel work and its sub-series -/

/-- The sub-series at place `i` of a task. -/
def SubAt : Status → Nat → Phase → Prop
  | .future, _, φ => φ = .idle
  | .now .chosen, _, φ => φ = .idle
  | .now .linked, _, φ => φ = .idle
  | .now .pending, _, _ => True
  | .now (.looping j), i, φ => (i < j → φ ≠ .idle) ∧ (j ≤ i → φ = .idle)
  | .now .waiting, _, φ => φ ≠ .idle
  | .now .done, _, φ => φ = .counted
  | .now .popping, _, φ => φ = .counted
  | .past, _, φ => φ = .counted

structure TaskOk [DecidableEq τ] (f : Flow τ σ) (ph : σ → Phase) (nleft : τ → Nat) (q : τ) : Prop where
  subs : ∀ l, f.subs q = some l → ∀ i y, l[i]? = some y → SubAt (f.status ph q) i (ph y)
  count : ∀ l, f.subs q = some l → (f.status ph q).awaiting = true →
    nleft q = l.countP (fun y => decide (ph y ≠ .counted))
  loops : ∀ j, f.status ph q = .now (.looping j) → ∃ l, f.subs q = some l ∧ j < l.length
  waits : f.status ph q = .now .waiting → 0 < nleft q ∧ ∃ l, f.subs q = some l
  leaf : f.status ph q = .now .pending → f.subs q = none

/-- Two phases that are the same to an owner. -/
def Phase.Alike (φ φ' : Phase) : Prop := (φ' = .idle ↔ φ = .idle) ∧ (φ' = .counted ↔ φ = .counted)

theorem Phase.Alike.refl (φ : Phase) : φ.Alike φ := ⟨Iff.rfl, Iff.rfl⟩

/-- Where a sub-series has begun, its parallel work has been dispatched. -/
theorem SubAt.dispatched {st : Status} {i : Nat} {φ : Phase} (h : SubAt st i φ) (hφ : φ ≠ .idle) :
    st.dispatched = true := by
  cases st with
  | future => exact absurd h hφ
  | past => rfl
  | now st =>
    cases st with
    | chosen => exact absurd h hφ
    | linked => exact absurd h hφ
    | pending => rfl
    | looping j => rfl
    | waiting => rfl
    | done => rfl
    | popping => rfl

theorem SubAt.alike {st : Status} {i : Nat} {φ φ' : Phase} (h : SubAt st i φ) (ha : φ.Alike φ') : SubAt st i φ' := by
  cases st with
  | future => exact ha.1.2 h
  | past => exact ha.2.2 h
  | now st =>
    cases st with
    | chosen => exact ha.1.2 h
    | linked => exact ha.1.2 h
    | pending => trivial
    | looping j => exact ⟨fun hi he => h.1 hi (ha.1.1 he), fun hi => ha.1.2 (h.2 hi)⟩
    | waiting => exact fun he => h (ha.1.1 he)
    | done => exact ha.2.2 h
    | popping => exact ha.2.2 h

section Tasks

variable [DecidableEq τ] {f : Flow τ σ} {ph ph' : σ → Phase} {nleft nleft' : τ → Nat} {q : τ}

theorem countP_alike {l : List σ} (h : ∀ y ∈ l, (ph y).Alike (ph' y)) :
    l.countP (fun y => decide (ph' y ≠ .counted)) = l.countP (fun y => decide (ph y ≠ .counted)) := by
  refine List.countP_congr fun y hy => ?_
  rw [decide_eq_true_iff, decide_eq_true_iff, not_iff_not]
  exact (h y hy).2

/-- A task whose sub-series stay alike stays as it is. -/
theorem TaskOk.alike (h : TaskOk f ph nleft q) (hs : f.status ph' q = f.status ph q) (hn : nleft' q = nleft q)
    (ha : ∀ y, f.owner y = some q → (ph y).Alike (ph' y)) : TaskOk f ph' nleft' q := by
  refine ⟨fun l hl i y hy => ?_, fun l hl haw => ?_, fun j hj => h.loops j (hs ▸ hj), fun hw => ?_,
    fun hp => h.leaf (hs ▸ hp)⟩
  · rw [hs]
    exact (h.subs l hl i y hy).alike (ha y ((f.mem_subs q l hl y).1 (List.mem_of_getElem? hy)))
  · rw [hn, h.count l hl (hs ▸ haw)]
    exact (countP_alike fun y hy => ha y ((f.mem_subs q l hl y).1 hy)).symm
  · rw [hn]
    exact h.waits (hs ▸ hw)

/-- A task that nothing waits for goes on, its sub-series standing still. -/
theorem TaskOk.calm (h : TaskOk f ph nleft q) (hsub : ∀ i φ, SubAt (f.status ph q) i φ → SubAt (f.status ph' q) i φ)
    (haw : (f.status ph' q).awaiting = false) (hp : f.status ph' q ≠ .now .pending)
    (same : ∀ y, f.owner y = some q → ph' y = ph y) : TaskOk f ph' nleft q := by
  refine ⟨fun l hl i y hy => ?_, fun l _ hw => ?_, fun j hj => ?_, fun hw => ?_, fun hw => absurd hw hp⟩
  · rw [same y ((f.mem_subs q l hl y).1 (List.mem_of_getElem? hy))]
    exact hsub i _ (h.subs l hl i y hy)
  · rw [haw] at hw; cases hw
  · rw [hj] at haw; cases haw
  · rw [hw] at haw; cases haw

omit [DecidableEq τ] in
/-- A series is none of the sub-series of its own tasks. -/
theorem Flow.owner_ne {y : σ} (h : f.owner y = some q) : y ≠ f.seriesOf q := by
  rintro rfl
  exact absurd (f.height_lt _ q h) (Nat.lt_irrefl _)

end Tasks

/-! ## The order of events -/

/-- `e'` has to have happened before `e` does. -/
inductive Flow.Before (f : Flow τ σ) : FlowEvent τ σ → FlowEvent τ σ → Prop
  | task {x : σ} {k : Nat} {t u : τ} (ht : (f.tasks x)[k]? = some t) (hu : (f.tasks x)[k + 1]? = some u) :
      Flow.Before f (.finished t) (.dispatched u)
  | dispatched (t : τ) : Flow.Before f (.dispatched t) (.finished t)
  | begins {p : τ} {x : σ} {t : τ} (h : f.owner x = some p) (ht : (f.tasks x)[0]? = some t) :
      Flow.Before f (.dispatched p) (.dispatched t)
  | sub {p : τ} {x : σ} (h : f.owner x = some p) : Flow.Before f (.callback x) (.finished p)
  | series (t : τ) : Flow.Before f (.finished t) (.callback (f.seriesOf t))

/-- Every event of the log stands behind those that have to come before. -/
def Flow.Ordered (f : Flow τ σ) (log : List (FlowEvent τ σ)) : Prop :=
  ∀ l₁ e l₂, log = l₁ ++ e :: l₂ → ∀ e', f.Before e' e → e' ∈ l₁

theorem Flow.Ordered.append {f : Flow τ σ} {log : List (FlowEvent τ σ)} {e : FlowEvent τ σ} (h : f.Ordered log)
    (he : ∀ e', f.Before e' e → e' ∈ log) : f.Ordered (log ++ [e]) := by
  intro l₁ e₁ l₂ hl e' hb
  rcases List.eq_nil_or_concat l₂ with rfl | ⟨l₃, b, rfl⟩
  · obtain ⟨rfl, heq⟩ := List.append_inj' hl rfl
    cases heq
    exact he e' hb
  · rw [List.concat_eq_append, ← List.cons_append, ← List.append_assoc] at hl
    obtain ⟨rfl, -⟩ := List.append_inj' hl rfl
    exact h l₁ e₁ l₃ rfl e' hb

/-! ## Every step -/

/-- **What holds in every state of a run**: it is what some phases say, and works and sub-series go together. -/
structure FlowOk [DecidableEq τ] (f : Flow τ σ) (ph : σ → Phase) (s : FlowState τ σ) : Prop where
  here : FlowLocal f ph s
  task : ∀ q, TaskOk f ph s.nleft q
  order : f.Ordered s.log

section Steps

variable [DecidableEq τ] [DecidableEq σ] {f : Flow τ σ} {ph ph' : σ → Phase} {s s' : FlowState τ σ}

omit [DecidableEq τ] [DecidableEq σ] in
theorem flatten_top (l₁ l₂ : List (List (FlowFrame τ σ))) (frs fs : List (FlowFrame τ σ)) :
    (l₁ ++ (frs ++ fs) :: l₂).flatten.Perm (frs ++ (l₁.flatten ++ (fs ++ l₂.flatten))) := by
  rw [List.flatten_append, List.flatten_cons, List.append_assoc]
  exact List.perm_append_comm_assoc ..

theorem alike_stage {x : σ} {k : Nat} {st : Stage} (st' : Stage) (hx : ph x = .running k st) (y : σ) :
    (ph y).Alike (Function.update ph x (.running k st') y) := by
  by_cases hy : y = x
  · subst hy
    rw [hx, Function.update_self]
    simp [Phase.Alike]
  · rw [Function.update_of_ne hy]
    exact Phase.Alike.refl _

/-- The other tasks when the current task of a series moves to another stage. -/
theorem tasks_stage {x : σ} {k : Nat} {st : Stage} {t : τ} (st' : Stage) {nleft nleft' : τ → Nat}
    (h : ∀ q ≠ t, TaskOk f ph nleft q) (hx : ph x = .running k st) (ht : (f.tasks x)[k]? = some t)
    (hn : ∀ q ≠ t, nleft' q = nleft q) (here : TaskOk f (Function.update ph x (.running k st')) nleft' t) (q : τ) :
    TaskOk f (Function.update ph x (.running k st')) nleft' q := by
  by_cases hq : q = t
  · exact hq ▸ here
  · refine (h q hq).alike ?_ (hn q hq) fun y _ => alike_stage st' hx y
    rw [FlowLocal.status_stage _ hx ht, if_neg hq]

/-! ## The frames of a series -/

omit [DecidableEq σ] in
/-- The frame on top of some stack belongs to a series in the phase it stands for. -/
theorem FlowOk.top {R : List (FlowFrame τ σ)} {fr : FlowFrame τ σ} (h : FlowOk f ph s)
    (old : s.threads.flatten.Perm (fr :: R)) : f.frameOf (f.home fr) (ph (f.home fr)) = some fr :=
  (h.here.frames fr).1 (old.mem_iff.2 List.mem_cons_self)

omit [DecidableEq τ] [DecidableEq σ] in
/-- The stage behind a frame of task `t`. -/
theorem frameOf_running {x : σ} {φ : Phase} {fr : FlowFrame τ σ} (h : f.frameOf x φ = some fr) :
    (∃ k st t, φ = .running k st ∧ (f.tasks x)[k]? = some t ∧ match st with
      | .chosen => fr = .next (f.owner x) x (some t)
      | .linked => fr = .dispatch t
      | .looping j => fr = .loop t j
      | .done => fr = .done t
      | .popping => fr = .pop (f.owner x) x
      | .pending => False
      | .waiting => False) ∨ (φ = .finished ∧ fr = .next (f.owner x) x none) := by
  cases φ with
  | idle => cases h
  | counted => cases h
  | finished => cases h; exact Or.inr ⟨rfl, rfl⟩
  | running k st =>
    obtain ⟨t, ht, h⟩ := Option.bind_eq_some_iff.1 h
    refine Or.inl ⟨k, st, t, rfl, ht, ?_⟩
    cases st <;> cases h <;> rfl

omit [DecidableEq σ] in
theorem FlowOk.at_dispatch {R : List (FlowFrame τ σ)} {t : τ} (h : FlowOk f ph s)
    (old : s.threads.flatten.Perm (.dispatch t :: R)) :
    ∃ k, ph (f.seriesOf t) = .running k .linked ∧ (f.tasks (f.seriesOf t))[k]? = some t := by
  rcases frameOf_running (h.top old) with ⟨k, st, u, hph, hu, hfr⟩ | ⟨_, hfr⟩
  · cases st <;> cases hfr
    exact ⟨k, hph, hu⟩
  · cases hfr

omit [DecidableEq σ] in
theorem FlowOk.at_loop {R : List (FlowFrame τ σ)} {p : τ} {j : Nat} (h : FlowOk f ph s)
    (old : s.threads.flatten.Perm (.loop p j :: R)) :
    ∃ k, ph (f.seriesOf p) = .running k (.looping j) ∧ (f.tasks (f.seriesOf p))[k]? = some p := by
  rcases frameOf_running (h.top old) with ⟨k, st, u, hph, hu, hfr⟩ | ⟨_, hfr⟩
  · cases st <;> cases hfr
    exact ⟨k, hph, hu⟩
  · cases hfr

omit [DecidableEq σ] in
theorem FlowOk.at_done {R : List (FlowFrame τ σ)} {t : τ} (h : FlowOk f ph s)
    (old : s.threads.flatten.Perm (.done t :: R)) :
    ∃ k, ph (f.seriesOf t) = .running k .done ∧ (f.tasks (f.seriesOf t))[k]? = some t := by
  rcases frameOf_running (h.top old) with ⟨k, st, u, hph, hu, hfr⟩ | ⟨_, hfr⟩
  · cases st <;> cases hfr
    exact ⟨k, hph, hu⟩
  · cases hfr

omit [DecidableEq σ] in
theorem FlowOk.at_pop {R : List (FlowFrame τ σ)} {parent : Option τ} {x : σ} (h : FlowOk f ph s)
    (old : s.threads.flatten.Perm (.pop parent x :: R)) :
    parent = f.owner x ∧ ∃ k t, ph x = .running k .popping ∧ (f.tasks x)[k]? = some t := by
  rcases frameOf_running (show f.frameOf x (ph x) = some (.pop parent x) from h.top old) with
    ⟨k, st, u, hph, hu, hfr⟩ | ⟨_, hfr⟩
  · cases st <;> cases hfr
    exact ⟨rfl, k, u, hph, hu⟩
  · cases hfr

omit [DecidableEq σ] in
theorem FlowOk.at_next {R : List (FlowFrame τ σ)} {parent : Option τ} {x : σ} {t : τ} (h : FlowOk f ph s)
    (old : s.threads.flatten.Perm (.next parent x (some t) :: R)) :
    parent = f.owner x ∧ ∃ k, ph x = .running k .chosen ∧ (f.tasks x)[k]? = some t := by
  rcases frameOf_running (show f.frameOf x (ph x) = some (.next parent x (some t)) from h.top old) with
    ⟨k, st, u, hph, hu, hfr⟩ | ⟨_, hfr⟩
  · cases st <;> cases hfr
    exact ⟨rfl, k, hph, hu⟩
  · cases hfr

omit [DecidableEq σ] in
theorem FlowOk.at_end {R : List (FlowFrame τ σ)} {parent : Option τ} {x : σ} (h : FlowOk f ph s)
    (old : s.threads.flatten.Perm (.next parent x none :: R)) : parent = f.owner x ∧ ph x = .finished := by
  rcases frameOf_running (show f.frameOf x (ph x) = some (.next parent x none) from h.top old) with
    ⟨k, st, u, hph, hu, hfr⟩ | ⟨hph, hfr⟩
  · cases st <;> cases hfr
  · cases hfr
    exact ⟨rfl, hph⟩

/-! ## Dispatching -/

omit [DecidableEq τ] [DecidableEq σ] in
theorem swapFrames {x : σ} {k : Nat} {st st' : Stage} {t : τ} {R : List (FlowFrame τ σ)}
    (ht : (f.tasks x)[k]? = some t) (old : s.threads.flatten.Perm ((f.stageFrame x t st).toList ++ R))
    (new : s'.threads.flatten.Perm ((f.stageFrame x t st').toList ++ R)) :
    FlowLocal.SwapFrames f x (.running k st) (.running k st') s s' := by
  refine ⟨R, ?_, ?_⟩
  · rw [f.frameOf_stage ht]; exact old
  · rw [f.frameOf_stage ht]; exact new

omit [DecidableEq σ] in
/-- A task is only dispatched behind the one before it, and the first of a sub-series behind the parallel work. -/
theorem FlowOk.before_dispatched {x : σ} {k : Nat} {st : Stage} {t : τ} (h : FlowOk f ph s) (hx : ph x = .running k st)
    (ht : (f.tasks x)[k]? = some t) : ∀ e, f.Before e (.dispatched t) → e ∈ s.log := by
  intro e he
  cases he with
  | @task y j u _ hu hut =>
    have hy : y = x := (f.seriesOf_getElem hut).symm.trans (f.seriesOf_getElem ht)
    subst hy
    have hj : k = j + 1 := (f.index_eq ht).symm.trans (f.index_eq hut)
    refine (h.here.log _).2 ?_
    rw [Flow.happened, Flow.status, f.seriesOf_getElem hu, hx, f.index_eq hu, Phase.status, if_pos (by omega)]
    rfl
  | @begins p y u hy hu =>
    have hyx : y = x := (f.seriesOf_getElem hu).symm.trans (f.seriesOf_getElem ht)
    subst hyx
    obtain ⟨l, hl⟩ := Option.isSome_iff_exists.1 (f.owner_subs y p hy)
    obtain ⟨i, hi⟩ := List.getElem?_of_mem ((f.mem_subs p l hl y).2 hy)
    refine (h.here.log _).2 (((h.task p).subs l hl i y hi).dispatched ?_)
    rw [hx]
    exact Phase.noConfusion

omit [DecidableEq σ] in
/-- A leaf has no sub-series. -/
theorem taskOk_leaf {nleft : τ → Nat} {t : τ} {st : Stage} (hs : f.subs t = none) (hn : f.status ph t = .now st)
    (h1 : ∀ j, st ≠ .looping j) (h2 : st ≠ .waiting) : TaskOk f ph nleft t := by
  refine ⟨fun l hl => ?_, fun l hl => ?_, fun j hj => ?_, fun hw => ?_, fun _ => hs⟩
  · rw [hs] at hl; cases hl
  · rw [hs] at hl; cases hl
  · rw [hn] at hj
    cases hj
    exact absurd rfl (h1 j)
  · rw [hn] at hw
    cases hw
    exact absurd rfl h2

theorem FlowOk.dispatchLeaf {t : τ} {R : List (FlowFrame τ σ)} {st : List (List (FlowFrame τ σ))} (inside : Bool)
    (h : FlowOk f ph s) (hs : f.subs t = none) (old : s.threads.flatten.Perm (.dispatch t :: R))
    (new : st.flatten.Perm ((s.dispatch f inside t).1 ++ R)) :
    ∃ ph', FlowOk f ph' { (s.dispatch f inside t).2 with threads := st } ∧ f.Later ph ph' := by
  obtain ⟨k, hx, ht⟩ := h.at_dispatch old
  have hnow := FlowLocal.status_now hx ht
  have hpar := h.here.parent t .linked hnow (by decide)
  have horder : f.Ordered (s.log ++ [.dispatched t]) := h.order.append (h.before_dispatched hx ht)
  unfold FlowState.dispatch at new ⊢
  rw [hs] at new ⊢
  cases inside with
  | true =>
    have hlocal : FlowLocal f _ { s.happens (.dispatched t) with threads := st } :=
      h.here.stage .done [.dispatched t] hx ht
      (swapFrames ht old new) (by
        have := (h.here.pending t).not.2 (by rw [hnow]; decide)
        exact Bool.eq_false_iff.2 this) (fun _ _ => rfl) (fun _ => hpar) (fun _ _ => rfl) rfl rfl (by simp [Status.dispatched])
        (by simp [Status.finished]) (by simp [Status.dispatched]) (List.nodup_singleton _)
    refine ⟨_, ⟨hlocal, tasks_stage .done (fun q _ => h.task q) hx ht (fun _ _ => rfl) ?_, horder⟩,
      Flow.later_stage hx ht (by simp [Stage.left])⟩
    exact taskOk_leaf hs (FlowLocal.status_moved ph ht _) (by simp) (by simp)
  | false =>
    have hlocal : FlowLocal f _ { s.happens (.dispatched t) with pending := Function.update s.pending t true, threads := st } :=
      h.here.stage .pending
      [.dispatched t] hx ht (swapFrames ht old new) (by simp) (fun u hu => Function.update_of_ne hu ..) (fun _ => hpar)
      (fun _ _ => rfl) rfl rfl (by simp [Status.dispatched]) (by simp [Status.finished]) (by simp [Status.dispatched])
      (List.nodup_singleton _)
    refine ⟨_, ⟨hlocal, tasks_stage .pending (fun q _ => h.task q) hx ht (fun _ _ => rfl) ?_, horder⟩,
      Flow.later_stage hx ht (by simp [Stage.left])⟩
    exact taskOk_leaf hs (FlowLocal.status_moved ph ht _) (by simp) (by simp)

theorem FlowOk.dispatchPar {t : τ} {l : List σ} {R : List (FlowFrame τ σ)} {st : List (List (FlowFrame τ σ))}
    (inside : Bool) (h : FlowOk f ph s) (hs : f.subs t = some l) (old : s.threads.flatten.Perm (.dispatch t :: R))
    (new : st.flatten.Perm ((s.dispatch f inside t).1 ++ R)) :
    ∃ ph', FlowOk f ph' { (s.dispatch f inside t).2 with threads := st } ∧ f.Later ph ph' := by
  obtain ⟨k, hx, ht⟩ := h.at_dispatch old
  have hnow := FlowLocal.status_now hx ht
  have hpar := h.here.parent t .linked hnow (by decide)
  have horder : f.Ordered (s.log ++ [.dispatched t]) := h.order.append (h.before_dispatched hx ht)
  have hpend : s.pending t = false :=
    Bool.eq_false_iff.2 ((h.here.pending t).not.2 (by rw [hnow]; decide))
  -- none of the sub-series has begun
  have hidle : ∀ y ∈ l, ph y = .idle := by
    intro y hy
    obtain ⟨i, hi⟩ := List.getElem?_of_mem hy
    have := (h.task t).subs l hs i y hi
    rwa [hnow] at this
  have hother : ∀ st' : Stage, ∀ y ∈ l, Function.update ph (f.seriesOf t) (.running k st') y = .idle := by
    intro st' y hy
    rw [Function.update_of_ne (Flow.owner_ne ((f.mem_subs t l hs y).1 hy))]
    exact hidle y hy
  unfold FlowState.dispatch at new ⊢
  rw [hs] at new ⊢
  dsimp only at new ⊢
  by_cases hl : l.length ≠ 0
  · rw [if_pos hl] at new
    have hlocal : FlowLocal f _ { (s.happens (.dispatched t)).setNleft t l.length with threads := st } :=
      h.here.stage (.looping 0) [.dispatched t] hx ht
      (swapFrames ht old new) hpend (fun _ _ => rfl) (fun _ => hpar) (fun _ _ => rfl) rfl rfl
      (by simp [Status.dispatched]) (by simp [Status.finished]) (by simp [Status.dispatched]) (List.nodup_singleton _)
    have hnow' := FlowLocal.status_moved ph ht (.looping 0)
    refine ⟨_, ⟨hlocal, tasks_stage (.looping 0) (fun q _ => h.task q) hx ht (fun q hq => Function.update_of_ne hq ..) ?_,
      horder⟩, Flow.later_stage hx ht (by simp [Stage.left])⟩
    refine ⟨fun l' hl' i y hy => ?_, fun l' hl' _ => ?_, fun j hj => ?_, fun hw => ?_, fun hp => ?_⟩
    · rw [hs] at hl'
      cases hl'
      rw [hnow']
      exact ⟨fun hi => absurd hi (Nat.not_lt_zero i), fun _ => hother _ y (List.mem_of_getElem? hy)⟩
    · rw [hs] at hl'
      cases hl'
      rw [List.countP_eq_length.2 fun y hy => by rw [hother _ y hy]; decide]
      exact Function.update_self ..
    · rw [hnow'] at hj
      cases hj
      exact ⟨l, hs, Nat.pos_of_ne_zero hl⟩
    · rw [hnow'] at hw; cases hw
    · rw [hnow'] at hp; cases hp
  · rw [if_neg hl] at new
    have hnil : l = [] := List.eq_nil_of_length_eq_zero (not_not.1 hl)
    subst hnil
    have hlocal : FlowLocal f _ { (s.happens (.dispatched t)).setNleft t 0 with threads := st } :=
      h.here.stage .done [.dispatched t] hx ht
      (swapFrames ht old new) hpend (fun _ _ => rfl) (fun _ => hpar) (fun _ _ => rfl) rfl rfl
      (by simp [Status.dispatched]) (by simp [Status.finished]) (by simp [Status.dispatched]) (List.nodup_singleton _)
    have hnow' := FlowLocal.status_moved ph ht .done
    refine ⟨_, ⟨hlocal, tasks_stage .done (fun q _ => h.task q) hx ht (fun q hq => Function.update_of_ne hq ..) ?_, horder⟩,
      Flow.later_stage hx ht (by simp [Stage.left])⟩
    refine ⟨fun l' hl' i y hy => ?_, fun l' hl' haw => ?_, fun j hj => ?_, fun hw => ?_, fun hp => ?_⟩
    · rw [hs] at hl'
      cases hl'
      cases hy
    · rw [hnow'] at haw; cases haw
    · rw [hnow'] at hj; cases hj
    · rw [hnow'] at hw; cases hw
    · rw [hnow'] at hp; cases hp

/-! ## Completing -/

theorem FlowOk.complete {t : τ} (h : FlowOk f ph s) (hp : s.pending t = true) :
    ∃ ph', FlowOk f ph' { s with pending := Function.update s.pending t false, threads := s.threads ++ [[.done t]] } ∧
      f.Later ph ph' := by
  have hnow := (h.here.pending t).1 hp
  have hx := f.status_now_iff.1 hnow
  have ht := f.getElem_index t
  have hleaf := (h.task t).leaf hnow
  have hlocal : FlowLocal f _ { s with pending := Function.update s.pending t false, threads := s.threads ++ [[.done t]] } :=
      h.here.stage .done [] hx ht
    (swapFrames ht (List.Perm.refl _) (by
      rw [List.flatten_append]
      exact List.perm_append_comm)) (by simp) (fun u hu => Function.update_of_ne hu ..)
    (fun _ => h.here.parent t .pending hnow (by decide)) (fun _ _ => rfl) rfl (List.append_nil _).symm
    (by simp [Status.dispatched]) (by simp [Status.finished]) (by simp) List.nodup_nil
  refine ⟨_, ⟨hlocal, tasks_stage .done (fun q _ => h.task q) hx ht (fun _ _ => rfl) ?_, h.order⟩,
    Flow.later_stage hx ht (by simp [Stage.left])⟩
  exact taskOk_leaf hleaf (FlowLocal.status_moved ph ht _) (by simp) (by simp)

theorem FlowOk.done {t : τ} {R : List (FlowFrame τ σ)} {st : List (List (FlowFrame τ σ))} (h : FlowOk f ph s)
    (old : s.threads.flatten.Perm (.done t :: R))
    (new : st.flatten.Perm (.pop (s.parent t) (f.seriesOf t) :: R)) :
    ∃ ph', FlowOk f ph' { s.happens (.finished t) with threads := st } ∧ f.Later ph ph' := by
  obtain ⟨k, hx, ht⟩ := h.at_done old
  have hnow := FlowLocal.status_now hx ht
  have hpar := h.here.parent t .done hnow (by decide)
  rw [hpar] at new
  have hcounted : ∀ y, f.owner y = some t → ph y = .counted := by
    intro y hy
    obtain ⟨l, hl⟩ := Option.isSome_iff_exists.1 (f.owner_subs y t hy)
    obtain ⟨i, hi⟩ := List.getElem?_of_mem ((f.mem_subs t l hl y).2 hy)
    have := (h.task t).subs l hl i y hi
    rwa [hnow] at this
  have hlocal : FlowLocal f _ { s.happens (.finished t) with threads := st } :=
      h.here.stage .popping [.finished t] hx ht
    (swapFrames ht old new) (Bool.eq_false_iff.2 ((h.here.pending t).not.2 (by rw [hnow]; decide))) (fun _ _ => rfl)
    (fun _ => hpar) (fun _ _ => rfl) rfl rfl (by simp [Status.dispatched]) (by simp [Status.finished])
    (by simp [Status.finished]) (List.nodup_singleton _)
  have hnow' := FlowLocal.status_moved ph ht .popping
  refine ⟨_, ⟨hlocal, tasks_stage .popping (fun q _ => h.task q) hx ht (fun _ _ => rfl) ?_, h.order.append fun e he => ?_⟩,
    Flow.later_stage hx ht (by simp [Stage.left])⟩
  · refine ⟨fun l hl i y hy => ?_, fun l hl haw => ?_, fun j hj => ?_, fun hw => ?_, fun hp => ?_⟩
    · have hown := (f.mem_subs t l hl y).1 (List.mem_of_getElem? hy)
      rw [hnow', Function.update_of_ne (Flow.owner_ne hown)]
      exact hcounted y hown
    · rw [hnow'] at haw; cases haw
    · rw [hnow'] at hj; cases hj
    · rw [hnow'] at hw; cases hw
    · rw [hnow'] at hp; cases hp
  · refine (h.here.log e).2 ?_
    cases he with
    | dispatched => rw [Flow.happened, hnow]; rfl
    | sub hy => exact Or.inr (hcounted _ hy)

/-! ## The next task -/

/-- The tasks when a series goes on behind its current task, or is over. -/
theorem tasks_pop {x : σ} {k : Nat} {φ' : Phase} {nleft : τ → Nat} (h : ∀ q, TaskOk f ph nleft q)
    (hx : ph x = .running k .popping) (hφ : φ' = .running (k + 1) .chosen ∨ (φ' = .finished ∧ (f.tasks x).length ≤ k + 1))
    (q : τ) : TaskOk f (Function.update ph x φ') nleft q := by
  by_cases hq : f.seriesOf q = x
  · have hst : f.status ph q = (Phase.running k .popping).status (f.index q) := by rw [Flow.status, hq, hx]
    have hst' : f.status (Function.update ph x φ') q = φ'.status (f.index q) := by
      rw [Flow.status, hq, Function.update_self]
    have hlt : f.index q < (f.tasks x).length := hq ▸ f.index_lt q
    -- done with, current, or to come
    have hcases : ((f.status ph q = .past ∨ f.status ph q = .now .popping) ∧
        f.status (Function.update ph x φ') q = .past) ∨
        (f.status ph q = .future ∧ (f.status (Function.update ph x φ') q = .future ∨
          f.status (Function.update ph x φ') q = .now .chosen)) := by
      rw [hst, hst']
      rcases hφ with rfl | ⟨rfl, hlen⟩
      · simp only [Phase.status]
        rcases Nat.lt_trichotomy (f.index q) k with hi | hi | hi
        · exact Or.inl ⟨Or.inl (if_pos hi), if_pos (by omega)⟩
        · refine Or.inl ⟨Or.inr ?_, if_pos (by omega)⟩
          rw [if_neg (by omega), if_pos hi]
        · refine Or.inr ⟨?_, ?_⟩
          · rw [if_neg (by omega), if_neg (by omega)]
          · rw [if_neg (by omega)]
            split
            · exact Or.inr rfl
            · exact Or.inl rfl
      · refine Or.inl ⟨?_, rfl⟩
        simp only [Phase.status]
        split
        · exact Or.inl rfl
        · rw [if_pos (by omega)]
          exact Or.inr rfl
    refine (h q).calm (fun i φ => ?_) ?_ ?_ fun y hy => Function.update_of_ne (hq ▸ Flow.owner_ne hy) ..
    · rcases hcases with ⟨h1 | h1, h2⟩ | ⟨h1, h2 | h2⟩ <;> rw [h1, h2] <;> exact id
    · rcases hcases with ⟨_, h2⟩ | ⟨_, h2 | h2⟩ <;> rw [h2] <;> rfl
    · rcases hcases with ⟨_, h2⟩ | ⟨_, h2 | h2⟩ <;> rw [h2] <;> simp
  · refine (h q).alike (FlowLocal.status_same (Function.update_of_ne hq ..)) rfl fun y _ => ?_
    by_cases hy : y = x
    · rw [hy, hx, Function.update_self]
      rcases hφ with rfl | ⟨rfl, _⟩ <;> simp [Phase.Alike]
    · rw [Function.update_of_ne hy]
      exact Phase.Alike.refl _

theorem FlowOk.pop {parent : Option τ} {x : σ} {R : List (FlowFrame τ σ)} {st : List (List (FlowFrame τ σ))}
    (h : FlowOk f ph s) (old : s.threads.flatten.Perm (.pop parent x :: R))
    (new : st.flatten.Perm ((s.pop parent x).1 ++ R)) :
    ∃ ph', FlowOk f ph' { (s.pop parent x).2 with threads := st } ∧ f.Later ph ph' := by
  obtain ⟨rfl, k, t, hx, ht⟩ := h.at_pop old
  have hold : s.threads.flatten.Perm ((f.frameOf x (.running k .popping)).toList ++ R) := by
    rw [f.frameOf_stage ht]
    exact old
  unfold FlowState.pop at new ⊢
  split at new
  · rename_i u w hp
    have hu := h.here.popSome_task hx hp
    refine ⟨_, ⟨h.here.popSome hx hp ⟨R, hold, ?_⟩ ⟨rfl, rfl, rfl⟩ rfl, tasks_pop h.task hx (Or.inl rfl), h.order⟩,
      Flow.later_pop hx ht hu⟩
    rw [f.frameOf_stage hu]
    exact new
  · rename_i w hp
    have hlen : (f.tasks x).length ≤ k + 1 := by
      have hleft := (SeriesWork.pop_none (h.here.canceled x) hp).1
      rw [h.here.left x, hx] at hleft
      exact List.drop_eq_nil_iff.1 hleft
    refine ⟨_, ⟨h.here.popNone hx hp ⟨R, hold, new⟩ ⟨rfl, rfl⟩ rfl rfl, tasks_pop h.task hx (Or.inr ⟨rfl, hlen⟩),
      h.order.append fun e he => ?_⟩, Flow.later_finished hx⟩
    cases he with
    | series u =>
      -- every task of the series is behind it
      refine (h.here.log _).2 ?_
      have hlt := f.index_lt u
      rw [Flow.happened, Flow.status, hx, Phase.status]
      split
      · rfl
      · rw [if_pos (by omega)]
        rfl

theorem FlowOk.next {parent : Option τ} {x : σ} {t : τ} {R : List (FlowFrame τ σ)}
    {st : List (List (FlowFrame τ σ))} (h : FlowOk f ph s)
    (old : s.threads.flatten.Perm (.next parent x (some t) :: R)) (new : st.flatten.Perm (.dispatch t :: R)) :
    ∃ ph', FlowOk f ph' { s.setParent t parent with threads := st } ∧ f.Later ph ph' := by
  obtain ⟨rfl, k, hx, ht⟩ := h.at_next old
  have hnow := FlowLocal.status_now hx ht
  have hlocal : FlowLocal f _ { s.setParent t (f.owner x) with threads := st } :=
      h.here.stage .linked [] hx ht
    (swapFrames ht old new) (Bool.eq_false_iff.2 ((h.here.pending t).not.2 (by rw [hnow]; decide))) (fun _ _ => rfl)
    (fun _ => Function.update_self ..) (fun u hu => Function.update_of_ne hu ..) rfl (List.append_nil _).symm
    (by simp [Status.dispatched]) (by simp [Status.finished]) (by simp) List.nodup_nil
  have hnow' := FlowLocal.status_moved ph ht .linked
  refine ⟨_, ⟨hlocal, tasks_stage .linked (fun q _ => h.task q) hx ht (fun _ _ => rfl) ?_, h.order⟩,
    Flow.later_stage hx ht (by simp [Stage.left])⟩
  refine (h.task t).calm (fun i φ => ?_) (by rw [hnow']; rfl) (by rw [hnow']; simp) fun y hy => ?_
  · rw [hnow, hnow']
    exact id
  · exact Function.update_of_ne (f.seriesOf_getElem ht ▸ Flow.owner_ne hy) ..

/-! ## Counting a series -/

/-- The root's callback has run, and its thread goes. -/
theorem FlowOk.endRoot {x : σ} {R : List (FlowFrame τ σ)} {st : List (List (FlowFrame τ σ))} (h : FlowOk f ph s)
    (old : s.threads.flatten.Perm (.next none x none :: R)) (new : st.flatten.Perm R) :
    ∃ ph', FlowOk f ph' { s with threads := st } ∧ f.Later ph ph' := by
  obtain ⟨hroot, hx⟩ := h.at_end old
  have hold : s.threads.flatten.Perm ((f.frameOf x .finished).toList ++ R) := by
    rw [Flow.frameOf, ← hroot]
    exact old
  refine ⟨_, ⟨h.here.count hx ⟨R, hold, new⟩ ⟨rfl, rfl, rfl, rfl⟩, fun q => ?_, h.order⟩, Flow.later_counted hx⟩
  refine (h.task q).alike ?_ rfl fun y hy => ?_
  · by_cases hq : f.seriesOf q = x
    · rw [Flow.status, Flow.status, hq, Function.update_self, hx]
      rfl
    · exact FlowLocal.status_same (Function.update_of_ne hq ..)
  · have hy' : y ≠ x := by
      rintro rfl
      rw [← hroot] at hy
      cases hy
    rw [Function.update_of_ne hy']
    exact Phase.Alike.refl _

omit [DecidableEq τ] in
theorem countP_counted {l : List σ} {x : σ} (hl : l.Nodup) (hx : x ∈ l) (hc : ph x ≠ .counted) :
    l.countP (fun y => decide (Function.update ph x .counted y ≠ .counted)) + 1 =
      l.countP (fun y => decide (ph y ≠ .counted)) := by
  obtain ⟨l₁, l₂, rfl⟩ := List.append_of_mem hx
  have hne : ∀ y ∈ l₁ ++ l₂, y ≠ x := by
    rintro y hy rfl
    exact (List.nodup_cons.1 (List.nodup_middle.1 hl)).1 hy
  have hsame : ∀ l' : List σ, (∀ y ∈ l', y ≠ x) →
      l'.countP (fun y => decide (Function.update ph x .counted y ≠ .counted)) =
        l'.countP (fun y => decide (ph y ≠ .counted)) := by
    intro l' h'
    refine List.countP_congr fun y hy => ?_
    rw [Function.update_of_ne (h' y hy)]
  rw [List.countP_append, List.countP_append, List.countP_cons, List.countP_cons,
    hsame l₁ fun y hy => hne y (List.mem_append_left _ hy), hsame l₂ fun y hy => hne y (List.mem_append_right _ hy),
    Function.update_self]
  simp [hc]
  omega

omit [DecidableEq σ] in
/-- The owner of a sub-series that is over waits for its sub-series. -/
theorem FlowOk.owner_awaits {p : τ} {x : σ} (h : FlowOk f ph s) (hp : f.owner x = some p) (hx : ph x = .finished) :
    ∃ l, f.subs p = some l ∧ x ∈ l ∧ (f.status ph p = .now .waiting ∨ ∃ j, f.status ph p = .now (.looping j)) := by
  obtain ⟨l, hl⟩ := Option.isSome_iff_exists.1 (f.owner_subs x p hp)
  have hmem := (f.mem_subs p l hl x).2 hp
  obtain ⟨i, hi⟩ := List.getElem?_of_mem hmem
  have hsub := (h.task p).subs l hl i x hi
  rw [hx] at hsub
  refine ⟨l, hl, hmem, ?_⟩
  cases hst : f.status ph p with
  | future => rw [hst] at hsub; cases hsub
  | past => rw [hst] at hsub; cases hsub
  | now st =>
    rw [hst] at hsub
    cases st with
    | chosen => cases hsub
    | linked => cases hsub
    | pending => rw [(h.task p).leaf hst] at hl; cases hl
    | looping j => exact Or.inr ⟨j, rfl⟩
    | waiting => exact Or.inl rfl
    | done => cases hsub
    | popping => cases hsub

/-- **The owner counts a sub-series that is over, and with the last of them it is done.** -/
theorem FlowOk.count {p : τ} {x : σ} {R : List (FlowFrame τ σ)} {st : List (List (FlowFrame τ σ))} (h : FlowOk f ph s)
    (old : s.threads.flatten.Perm (.next (some p) x none :: R))
    (new : st.flatten.Perm ((if s.nleft p - 1 = 0 then [.done p] else []) ++ R)) :
    ∃ ph', FlowOk f ph' { s.setNleft p (s.nleft p - 1) with threads := st } ∧ f.Later ph ph' := by
  obtain ⟨hp, hx⟩ := h.at_end old
  have hp : f.owner x = some p := hp.symm
  obtain ⟨l, hl, hmem, haw⟩ := h.owner_awaits hp hx
  have hxp := Flow.owner_ne hp
  have hcount : s.nleft p = l.countP (fun y => decide (ph y ≠ .counted)) := by
    refine (h.task p).count l hl ?_
    rcases haw with haw | ⟨j, haw⟩ <;> rw [haw] <;> rfl
  have hless := countP_counted (f.nodup_subs p l hl) hmem (hx ▸ by decide : ph x ≠ .counted)
  have hold : s.threads.flatten.Perm ((f.frameOf x .finished).toList ++ R) := by
    rw [Flow.frameOf, hp]
    exact old
  -- the series is counted first, before `nleft` is looked at
  have hlocal : FlowLocal f _ { s.setNleft p (s.nleft p - 1) with threads := [R] } :=
      h.here.count hx
    ⟨R, hold, by rw [List.flatten_singleton]; exact List.Perm.refl R⟩ ⟨rfl, rfl, rfl, rfl⟩
  have hstatus : ∀ q, f.status (Function.update ph x .counted) q = f.status ph q := by
    intro q
    by_cases hq : f.seriesOf q = x
    · rw [Flow.status, Flow.status, hq, Function.update_self, hx]
      rfl
    · exact FlowLocal.status_same (Function.update_of_ne hq ..)
  have hothers : ∀ q ≠ p, TaskOk f (Function.update ph x .counted) (s.setNleft p (s.nleft p - 1)).nleft q := by
    intro q hq
    refine (h.task q).alike (hstatus q) (Function.update_of_ne hq ..) fun y hy => ?_
    rw [Function.update_of_ne]
    · exact Phase.Alike.refl _
    · rintro rfl
      rw [hp] at hy
      exact hq (Option.some.inj hy).symm
  have hnl : (s.setNleft p (s.nleft p - 1)).nleft p = s.nleft p - 1 := Function.update_self ..
  by_cases hzero : s.nleft p - 1 = 0
  · rw [if_pos hzero] at new
    have hnone : l.countP (fun y => decide (Function.update ph x .counted y ≠ .counted)) = 0 := by omega
    have hall : ∀ y ∈ l, Function.update ph x .counted y = .counted := by
      intro y hy
      have := List.countP_eq_zero.1 hnone y hy
      simpa using this
    -- the loop has been through, since a series it has not come to would not be counted
    have hwait : f.status ph p = .now .waiting := by
      rcases haw with haw | ⟨j, haw⟩
      · exact haw
      · obtain ⟨l', hl', hj⟩ := (h.task p).loops j haw
        rw [hl] at hl'
        cases hl'
        have hsub := (h.task p).subs l hl j l[j] (List.getElem?_eq_getElem hj)
        rw [haw] at hsub
        have hidle : ph l[j] = .idle := hsub.2 (Nat.le_refl j)
        have hcon := hall l[j] (List.getElem_mem hj)
        by_cases he : l[j] = x
        · rw [he, hx] at hidle; cases hidle
        · rw [Function.update_of_ne he, hidle] at hcon; cases hcon
    have hrun : Function.update ph x .counted (f.seriesOf p) = .running (f.index p) .waiting := by
      rw [Function.update_of_ne hxp.symm]
      exact f.status_now_iff.1 hwait
    have ht := f.getElem_index p
    have hpend : s.pending p = false := Bool.eq_false_iff.2 ((h.here.pending p).not.2 (by rw [hwait]; decide))
    have hlocal' : FlowLocal f _ { s.setNleft p (s.nleft p - 1) with threads := st } :=
      hlocal.stage .done [] hrun ht
      (swapFrames (R := R) ht (by rw [List.flatten_singleton]; exact List.Perm.refl R) new) hpend (fun _ _ => rfl)
      (fun _ => h.here.parent p .waiting hwait (by decide)) (fun _ _ => rfl) rfl (List.append_nil _).symm
      (by simp [Status.dispatched]) (by simp [Status.finished]) (by simp) List.nodup_nil
    refine ⟨_, ⟨hlocal', tasks_stage .done hothers hrun ht (fun _ _ => rfl) ?_, h.order⟩,
      (Flow.later_counted hx).trans (Flow.later_stage hrun ht (by simp [Stage.left]))⟩
    have hnow' := FlowLocal.status_moved (Function.update ph x .counted) ht .done
    refine ⟨fun l' hl' i y hy => ?_, fun l' hl' hw => ?_, fun j hj => ?_, fun hw => ?_, fun hw => ?_⟩
    · rw [hl] at hl'
      cases hl'
      have hym := List.mem_of_getElem? hy
      rw [hnow', Function.update_of_ne (Flow.owner_ne ((f.mem_subs p l hl y).1 hym))]
      exact hall y hym
    · rw [hnow'] at hw; cases hw
    · rw [hnow'] at hj; cases hj
    · rw [hnow'] at hw; cases hw
    · rw [hnow'] at hw; cases hw
  · rw [if_neg hzero] at new
    have hlocal' : FlowLocal f _ { s.setNleft p (s.nleft p - 1) with threads := st } :=
      h.here.count hx
      ⟨R, hold, new⟩ ⟨rfl, rfl, rfl, rfl⟩
    refine ⟨_, ⟨hlocal', fun q => ?_, h.order⟩, Flow.later_counted hx⟩
    by_cases hq : q = p
    · subst hq
      refine ⟨fun l' hl' i y hy => ?_, fun l' hl' _ => ?_, fun j hj => (h.task q).loops j (hstatus q ▸ hj), fun _ => ?_,
        fun hw => (h.task q).leaf (hstatus q ▸ hw)⟩
      · rw [hstatus]
        have hsub := (h.task q).subs l' hl' i y hy
        by_cases hyx : y = x
        · rw [hyx, hx] at hsub
          rw [hyx, Function.update_self]
          rcases haw with haw | ⟨j, haw⟩ <;> rw [haw] at hsub ⊢
          · exact fun he => by cases he
          · exact ⟨fun _ he => (by cases he), fun hi => (by cases hsub.2 hi)⟩
        · rw [Function.update_of_ne hyx]
          exact hsub
      · rw [hl] at hl'
        cases hl'
        show (s.setNleft q (s.nleft q - 1)).nleft q = _
        omega
      · refine ⟨?_, l, hl⟩
        show 0 < (s.setNleft q (s.nleft q - 1)).nleft q
        omega
    · exact hothers q hq

/-! ## Beginning a series -/

theorem FlowOk.loop {p : τ} {j : Nat} {R : List (FlowFrame τ σ)} {st : List (List (FlowFrame τ σ))} (h : FlowOk f ph s)
    (old : s.threads.flatten.Perm (.loop p j :: R)) (new : st.flatten.Perm ((s.loop f p j).1 ++ R)) :
    ∃ ph', FlowOk f ph' { (s.loop f p j).2 with threads := st } ∧ f.Later ph ph' := by
  obtain ⟨k, hxp, ht⟩ := h.at_loop old
  have hnow := FlowLocal.status_now hxp ht
  obtain ⟨l, hl, hj⟩ := (h.task p).loops j hnow
  generalize hxj : l[j] = x
  have hget : l[j]? = some x := by rw [List.getElem?_eq_getElem hj, hxj]
  have hmem := List.mem_of_getElem? hget
  have hown := (f.mem_subs p l hl x).1 hmem
  have hne := Flow.owner_ne hown
  have hidle : ph x = .idle := by
    have := (h.task p).subs l hl j x hget
    rw [hnow] at this
    exact this.2 (Nat.le_refl j)
  have hcount : s.nleft p = l.countP (fun y => decide (ph y ≠ .counted)) :=
    (h.task p).count l hl (by rw [hnow]; rfl)
  have hrun : s.loop f p j = (.dispatch (f.first x) :: (if j + 1 ≠ l.length then [.loop p (j + 1)] else []),
      s.setParent (f.first x) (some p)) := by
    unfold FlowState.loop
    rw [hl, Option.getD_some, hget]
  rw [hrun] at new ⊢
  dsimp only at new ⊢
  -- first the sub-series begins, its task on top of the loop
  have hlocal : FlowLocal f _ { s.setParent (f.first x) (some p) with threads := [.dispatch (f.first x) :: .loop p j :: R] } :=
      h.here.begin hidle
    ⟨.loop p j :: R, old, by rw [List.flatten_singleton]; exact List.Perm.refl _⟩ rfl
    (by rw [hown]; rfl) rfl rfl
  generalize hph1 : Function.update ph x (.running 0 .linked) = ph1 at hlocal
  have hph1_x : ph1 x = .running 0 .linked := by rw [← hph1, Function.update_self]
  have hph1_ne : ∀ y, y ≠ x → ph1 y = ph y := fun y hy => by rw [← hph1, Function.update_of_ne hy]
  have hrunp : ph1 (f.seriesOf p) = .running k (.looping j) := by rw [hph1_ne _ hne.symm, hxp]
  have hothers : ∀ q ≠ p, TaskOk f ph1 s.nleft q := by
    intro q hq
    have hsame : ∀ y, f.owner y = some q → ph1 y = ph y := by
      intro y hy
      refine hph1_ne y ?_
      rintro rfl
      rw [hown] at hy
      exact hq (Option.some.inj hy).symm
    by_cases hs : f.seriesOf q = x
    · have hfut : f.status ph q = .future := by rw [Flow.status, hs, hidle]; rfl
      have hst : f.status ph1 q = .future ∨ f.status ph1 q = .now .linked := by
        rw [Flow.status, hs, hph1_x, Phase.status, if_neg (Nat.not_lt_zero _)]
        split
        · exact Or.inr rfl
        · exact Or.inl rfl
      refine (h.task q).calm (fun i φ => ?_) ?_ ?_ hsame
      · rcases hst with hst | hst <;> rw [hfut, hst] <;> exact id
      · rcases hst with hst | hst <;> rw [hst] <;> rfl
      · rcases hst with hst | hst <;> rw [hst] <;> simp
    · refine (h.task q).alike (FlowLocal.status_same (hph1_ne _ hs)) rfl fun y hy => ?_
      rw [hsame y hy]
      exact Phase.Alike.refl _
  have hpend : (s.setParent (f.first x) (some p)).pending p = false :=
    Bool.eq_false_iff.2 ((h.here.pending p).not.2 (by rw [hnow]; simp))
  have hpar : (s.setParent (f.first x) (some p)).parent p = f.owner (f.seriesOf p) :=
    hlocal.parent p (.looping j) (FlowLocal.status_now hrunp ht) (by simp)
  have hR : ([.dispatch (f.first x) :: .loop p j :: R] : List (List (FlowFrame τ σ))).flatten.Perm
      (.loop p j :: (.dispatch (f.first x) :: R)) := by
    rw [List.flatten_singleton]
    exact List.Perm.swap ..
  -- then the loop goes on, or through
  have hstage : ∀ st', (st' = .looping (j + 1) ∧ j + 1 < l.length) ∨ (st' = .waiting ∧ j + 1 = l.length) →
      st.flatten.Perm ((f.stageFrame (f.seriesOf p) p st').toList ++ (.dispatch (f.first x) :: R)) →
      ∃ ph', FlowOk f ph' { s.setParent (f.first x) (some p) with threads := st } ∧ f.Later ph ph' := by
    intro st' hst' new'
    have hlocal' : FlowLocal f _ { s.setParent (f.first x) (some p) with threads := st } :=
      hlocal.stage st' [] hrunp ht
      (swapFrames ht hR new') (by rcases hst' with ⟨rfl, _⟩ | ⟨rfl, _⟩ <;> simpa using hpend) (fun _ _ => rfl)
      (fun _ => hpar) (fun _ _ => rfl) rfl (List.append_nil _).symm
      (by rcases hst' with ⟨rfl, _⟩ | ⟨rfl, _⟩ <;> simp [Status.dispatched])
      (by rcases hst' with ⟨rfl, _⟩ | ⟨rfl, _⟩ <;> simp [Status.finished]) (by simp) List.nodup_nil
    refine ⟨_, ⟨hlocal', tasks_stage st' hothers hrunp ht (fun _ _ => rfl) ?_, h.order⟩,
      (hph1 ▸ Flow.later_begin hidle).trans (Flow.later_stage hrunp ht ?_)⟩
    rotate_left
    · have hw : f.width p = l.length := by rw [Flow.width, hl, Option.getD_some]
      rcases hst' with ⟨rfl, _⟩ | ⟨rfl, _⟩ <;> simp only [Stage.left] <;> omega
    have hnow' := FlowLocal.status_moved ph1 ht st'
    have hphase : ∀ y ∈ l, Function.update ph1 (f.seriesOf p) (.running k st') y =
        if y = x then .running 0 .linked else ph y := by
      intro y hy
      rw [Function.update_of_ne (Flow.owner_ne ((f.mem_subs p l hl y).1 hy))]
      by_cases hyx : y = x
      · rw [if_pos hyx, hyx, hph1_x]
      · rw [if_neg hyx, hph1_ne y hyx]
    have hcount' : l.countP (fun y => decide (Function.update ph1 (f.seriesOf p) (.running k st') y ≠ .counted)) =
        s.nleft p := by
      rw [hcount]
      refine List.countP_congr fun y hy => ?_
      rw [hphase y hy]
      split
      · rename_i hyx
        rw [hyx, hidle]
        simp
      · rfl
    have hbegun : ∀ i y, l[i]? = some y → (i < j + 1 → (if y = x then Phase.running 0 .linked else ph y) ≠ .idle) ∧
        (j + 1 ≤ i → (if y = x then Phase.running 0 .linked else ph y) = .idle) := by
      intro i y hy
      have hsub := (h.task p).subs l hl i y hy
      rw [hnow] at hsub
      have hij : y = x → i = j := by
        rintro rfl
        exact (List.getElem?_inj (List.getElem?_eq_some_iff.1 hy).1 (f.nodup_subs p l hl)).1 (hy.trans hget.symm)
      by_cases hyx : y = x
      · rw [if_pos hyx]
        have := hij hyx
        exact ⟨fun _ => by simp, fun _ => by omega⟩
      · rw [if_neg hyx]
        refine ⟨fun hi => hsub.1 ?_, fun hi => hsub.2 (by omega)⟩
        have : i ≠ j := by
          rintro rfl
          rw [hy] at hget
          exact hyx (Option.some.inj hget)
        omega
    refine ⟨fun l' hl' i y hy => ?_, fun l' hl' _ => ?_, fun j' hj' => ?_, fun hw => ?_, fun hw => ?_⟩
    · rw [hl] at hl'
      cases hl'
      rw [hnow', hphase y (List.mem_of_getElem? hy)]
      have hb := hbegun i y hy
      rcases hst' with ⟨rfl, _⟩ | ⟨rfl, hlen⟩
      · exact hb
      · refine hb.1 ?_
        rw [hlen]
        exact (List.getElem?_eq_some_iff.1 hy).1
    · rw [hl] at hl'
      cases hl'
      exact hcount'.symm
    · rw [hnow'] at hj'
      rcases hst' with ⟨rfl, hlt⟩ | ⟨rfl, _⟩
      · cases hj'
        exact ⟨l, hl, hlt⟩
      · cases hj'
    · refine ⟨?_, l, hl⟩
      show 0 < s.nleft p
      rw [← hcount', List.countP_pos_iff]
      refine ⟨x, hmem, ?_⟩
      rw [hphase x hmem, if_pos rfl]
      simp
    · rw [hnow'] at hw
      rcases hst' with ⟨rfl, _⟩ | ⟨rfl, _⟩ <;> cases hw
  by_cases hlast : j + 1 ≠ l.length
  · rw [if_pos hlast] at new
    exact hstage (.looping (j + 1)) (Or.inl ⟨rfl, by omega⟩) (new.trans (List.Perm.swap ..))
  · rw [if_neg hlast] at new
    exact hstage .waiting (Or.inr ⟨rfl, not_not.1 hlast⟩) new

/-- **Every step keeps it**, whichever thread takes it. -/
theorem FlowStep.ok {a : Option τ} (h : FlowOk f ph s) (step : FlowStep f s a s') :
    ∃ ph', FlowOk f ph' s' ∧ f.Later ph ph' := by
  cases step with
  | complete t pending => exact h.complete pending
  | call inside l₁ l₂ fr fs top =>
    have old : s.threads.flatten.Perm (fr :: (l₁.flatten ++ (fs ++ l₂.flatten))) := by
      rw [top]
      exact flatten_top l₁ l₂ [fr] fs
    have new := flatten_top l₁ l₂ (s.run f inside fr).1 fs
    cases fr with
    | dispatch t =>
      cases hs : f.subs t with
      | none => exact h.dispatchLeaf inside hs old new
      | some l => exact h.dispatchPar inside hs old new
    | loop p j => exact h.loop old new
    | done t => exact h.done old new
    | pop parent x => exact h.pop old new
    | next parent x cur =>
      cases cur with
      | some t => exact h.next old new
      | none =>
        cases parent with
        | none => exact h.endRoot old new
        | some p => exact h.count old new

end Steps

end Tinywf
