import Tinywf.Workflow
import Mathlib.Data.List.Nodup
/-!
# WorkflowPhase — how far each series has come

A series is idle, or one of its tasks is current, or it is over, or its owner has counted it.  The phase of a series says
which call frame it is responsible for (`Flow.frameOf`, never more than one), which task of it is pending, what is left in
its queue and which of its events have happened.  `FlowLocal` is that the state is what the phases say; since each part
of it is about one series, a step that moves the series of a list keeps it as soon as it does for those
(`FlowLocal.move`).
-/
namespace Tinywf

variable {τ σ : Type*}

/-- What the current task of a series is at. -/
inductive Stage where
  | chosen | linked | pending | looping (k : Nat) | waiting | done | popping
deriving DecidableEq

inductive Phase where
  | idle | running (k : Nat) (st : Stage) | finished | counted
deriving DecidableEq

/-- What a task is at, by its place in its series. -/
inductive Status where
  | future | now (st : Stage) | past
deriving DecidableEq

def Phase.status : Phase → Nat → Status
  | .idle, _ => .future
  | .running k st, i => if i < k then .past else if i = k then .now st else .future
  | .finished, _ => .past
  | .counted, _ => .past

def Status.dispatched : Status → Bool
  | .future => false
  | .now .chosen => false
  | .now .linked => false
  | _ => true

def Status.finished : Status → Bool
  | .now .popping => true
  | .past => true
  | _ => false

/-- The task is a parallel work whose sub-series are on their way. -/
def Status.awaiting : Status → Bool
  | .now (.looping _) => true
  | .now .waiting => true
  | _ => false

namespace Flow

section Places

variable (f : Flow τ σ)

theorem mem_tasks_iff (x : σ) (t : τ) : t ∈ f.tasks x ↔ f.seriesOf t = x := f.mem_tasks x t

theorem tasks_nodup (x : σ) : (f.tasks x).Nodup := f.nodup_tasks x

theorem tasks_length (x : σ) : 0 < (f.tasks x).length := Nat.succ_pos _

theorem seriesOf_getElem {x : σ} {k : Nat} {t : τ} (h : (f.tasks x)[k]? = some t) : f.seriesOf t = x :=
  (f.mem_tasks_iff x t).1 (List.mem_of_getElem? h)

variable [DecidableEq τ]

/-- The place of a task in its series. -/
def index (t : τ) : Nat := (f.tasks (f.seriesOf t)).idxOf t

theorem getElem_index (t : τ) : (f.tasks (f.seriesOf t))[f.index t]? = some t :=
  List.getElem?_idxOf ((f.mem_tasks_iff _ t).2 rfl)

theorem index_lt (t : τ) : f.index t < (f.tasks (f.seriesOf t)).length :=
  List.idxOf_lt_length_of_mem ((f.mem_tasks_iff _ t).2 rfl)

theorem index_eq {x : σ} {k : Nat} {t : τ} (h : (f.tasks x)[k]? = some t) : f.index t = k := by
  have hx := f.seriesOf_getElem h
  have hk : k < (f.tasks x).length := (List.getElem?_eq_some_iff.1 h).1
  have hi := f.getElem_index t
  rw [hx, ← h] at hi
  exact (List.getElem?_inj (hx ▸ f.index_lt t) (f.tasks_nodup x)).1 hi

theorem index_inj {t u : τ} (hs : f.seriesOf t = f.seriesOf u) (hi : f.index t = f.index u) : t = u := by
  have ht := f.getElem_index t
  rw [hs, hi, f.getElem_index u] at ht
  exact (Option.some.inj ht).symm

/-- What task `t` is at. -/
def status (ph : σ → Phase) (t : τ) : Status := (ph (f.seriesOf t)).status (f.index t)

theorem status_now_iff {ph : σ → Phase} {t : τ} {st : Stage} :
    f.status ph t = .now st ↔ ph (f.seriesOf t) = .running (f.index t) st := by
  rw [status]
  cases ph (f.seriesOf t) with
  | idle => simp [Phase.status]
  | finished => simp [Phase.status]
  | counted => simp [Phase.status]
  | running k st' =>
    rw [Phase.status, Phase.running.injEq]
    split
    · simp
      omega
    · split
      · rename_i hk
        simp [hk]
      · rename_i hk
        simp [Ne.symm hk]

end Places

/-! ## What a phase stands for -/

section Stands

variable (f : Flow τ σ)

/-- The frame of a series whose current task is `t`. -/
def stageFrame (x : σ) (t : τ) : Stage → Option (FlowFrame τ σ)
  | .chosen => some (.next (f.owner x) x (some t))
  | .linked => some (.dispatch t)
  | .looping j => some (.loop t j)
  | .done => some (.done t)
  | .popping => some (.pop (f.owner x) x)
  | .pending => none
  | .waiting => none

/-- The frame a series is responsible for. -/
def frameOf (x : σ) : Phase → Option (FlowFrame τ σ)
  | .running k st => (f.tasks x)[k]?.bind fun t => f.stageFrame x t st
  | .finished => some (.next (f.owner x) x none)
  | .idle => none
  | .counted => none

/-- The series responsible for a frame. -/
def home : FlowFrame τ σ → σ
  | .dispatch t => f.seriesOf t
  | .loop p _ => f.seriesOf p
  | .done t => f.seriesOf t
  | .pop _ x => x
  | .next _ x _ => x

theorem frameOf_stage {x : σ} {k : Nat} {t : τ} (ht : (f.tasks x)[k]? = some t) (st : Stage) :
    f.frameOf x (.running k st) = f.stageFrame x t st := by
  rw [frameOf, ht, Option.bind_some]

theorem home_frameOf {x : σ} {φ : Phase} {fr : FlowFrame τ σ} (h : f.frameOf x φ = some fr) : f.home fr = x := by
  cases φ with
  | idle => cases h
  | counted => cases h
  | finished => cases h; rfl
  | running k st =>
    obtain ⟨t, ht, h⟩ := Option.bind_eq_some_iff.1 h
    have hs := f.seriesOf_getElem ht
    cases st <;> cases h <;> first | rfl | exact hs

/-- The tasks still in the series' queue, the last one included. -/
def remaining (x : σ) : Phase → List τ
  | .idle => (f.tasks x).tail
  | .running k _ => (f.tasks x).drop (k + 1)
  | .finished => []
  | .counted => []

variable [DecidableEq τ]

def happened (ph : σ → Phase) : FlowEvent τ σ → Prop
  | .dispatched t => (f.status ph t).dispatched = true
  | .finished t => (f.status ph t).finished = true
  | .callback x => ph x = .finished ∨ ph x = .counted

/-- The series an event is about. -/
def about : FlowEvent τ σ → σ
  | .dispatched t => f.seriesOf t
  | .finished t => f.seriesOf t
  | .callback x => x

end Stands

end Flow

/-! ## What is still to be done -/

/-- The steps that are left of a task with `n` sub-series, at most. -/
def Stage.left (n : Nat) : Stage → Nat
  | .chosen => n + 6
  | .linked => n + 5
  | .pending => 3
  | .looping j => n - j + 3
  | .waiting => 3
  | .done => 2
  | .popping => 1

namespace Flow

section Left

variable (f : Flow τ σ)

def width (t : τ) : Nat := ((f.subs t).getD []).length

/-- The steps that are left of tasks to come. -/
def toCome : List τ → Nat
  | [] => 0
  | t :: l => f.width t + 7 + toCome l

/-- The steps that are left of a series. -/
def left (x : σ) : Phase → Nat
  | .idle => f.toCome (f.tasks x) + 3
  | .running k st => ((f.tasks x)[k]?.map (fun t => st.left (f.width t))).getD 0 + f.toCome ((f.tasks x).drop (k + 1)) + 2
  | .finished => 1
  | .counted => 0

/-- Some series have gone on, and none back. -/
def Later (ph ph' : σ → Phase) : Prop :=
  (∀ x, f.left x (ph' x) ≤ f.left x (ph x)) ∧ ∃ x, f.left x (ph' x) < f.left x (ph x)

variable {f} {ph ph' ph'' : σ → Phase}

theorem Later.trans (h : f.Later ph ph') (h' : f.Later ph' ph'') : f.Later ph ph'' := by
  obtain ⟨x, hx⟩ := h.2
  exact ⟨fun y => Nat.le_trans (h'.1 y) (h.1 y), x, Nat.lt_of_le_of_lt (h'.1 x) hx⟩

theorem toCome_drop {x : σ} {k : Nat} {t : τ} (ht : (f.tasks x)[k]? = some t) :
    f.toCome ((f.tasks x).drop k) = f.width t + 7 + f.toCome ((f.tasks x).drop (k + 1)) := by
  obtain ⟨hk, rfl⟩ := List.getElem?_eq_some_iff.1 ht
  rw [List.drop_eq_getElem_cons hk, toCome]

variable [DecidableEq σ]

theorem later_update {x : σ} {φ' : Phase} (h : f.left x φ' < f.left x (ph x)) : f.Later ph (Function.update ph x φ') := by
  refine ⟨fun y => ?_, x, by rw [Function.update_self]; exact h⟩
  by_cases hy : y = x
  · rw [hy, Function.update_self]
    exact Nat.le_of_lt h
  · exact Nat.le_of_eq (by rw [Function.update_of_ne hy])

theorem later_stage {x : σ} {k : Nat} {st st' : Stage} {t : τ} (hx : ph x = .running k st)
    (ht : (f.tasks x)[k]? = some t) (h : st'.left (f.width t) < st.left (f.width t)) :
    f.Later ph (Function.update ph x (.running k st')) := by
  refine later_update ?_
  rw [hx, left, left, ht]
  simpa using h

omit [DecidableEq σ] in
theorem left_begin (x : σ) : f.left x (.running 0 .linked) < f.left x .idle := by
  have h0 : (f.tasks x)[0]? = some (f.first x) := rfl
  have := toCome_drop h0
  rw [List.drop_zero] at this
  rw [left, left, h0, this]
  simp only [Stage.left, Option.map_some, Option.getD_some]
  omega

theorem later_begin {x : σ} (hx : ph x = .idle) : f.Later ph (Function.update ph x (.running 0 .linked)) :=
  later_update (hx ▸ left_begin x)

theorem later_pop {x : σ} {k : Nat} {t u : τ} (hx : ph x = .running k .popping) (ht : (f.tasks x)[k]? = some t)
    (hu : (f.tasks x)[k + 1]? = some u) : f.Later ph (Function.update ph x (.running (k + 1) .chosen)) := by
  refine later_update ?_
  rw [hx, left, left, ht, hu, toCome_drop hu]
  simp [Stage.left]
  omega

theorem later_finished {x : σ} {k : Nat} (hx : ph x = .running k .popping) : f.Later ph (Function.update ph x .finished) := by
  refine later_update ?_
  rw [hx, left, left]
  omega

theorem later_counted {x : σ} (hx : ph x = .finished) : f.Later ph (Function.update ph x .counted) := by
  refine later_update ?_
  rw [hx, left, left]
  omega

end Left

end Flow

/-! ## `pop` -/

namespace SeriesWork

variable {w w' : SeriesWork τ} {t : τ}

theorem pop_some (hc : w.canceled = false) (h : w.pop = (some t, w')) :
    w.queue ++ w.last.toList = t :: (w'.queue ++ w'.last.toList) ∧ w'.canceled = false := by
  rw [pop, hc, if_neg (by decide)] at h
  unfold popTask at h
  split at h
  · rename_i hq
    cases h
    exact ⟨by rw [hq]; rfl, hc⟩
  · rename_i hq
    split at h
    · rename_i hl
      cases h
      exact ⟨by rw [hq, hl]; rfl, hc⟩
    · cases h

theorem pop_none (hc : w.canceled = false) (h : w.pop = (none, w')) :
    w.queue ++ w.last.toList = [] ∧ w'.queue ++ w'.last.toList = [] ∧ w'.canceled = false := by
  rw [pop, hc, if_neg (by decide)] at h
  unfold popTask at h
  split at h
  · cases h
  · rename_i hq
    split at h
    · cases h
    · rename_i hl
      cases h
      rw [hq, hl]
      exact ⟨rfl, rfl, hc⟩

end SeriesWork

/-! ## The state is what the phases say -/

structure FlowLocal [DecidableEq τ] (f : Flow τ σ) (ph : σ → Phase) (s : FlowState τ σ) : Prop where
  place : ∀ x k st, ph x = .running k st → k < (f.tasks x).length
  single : s.threads.flatten.Nodup
  frames : ∀ fr, fr ∈ s.threads.flatten ↔ f.frameOf (f.home fr) (ph (f.home fr)) = some fr
  pending : ∀ t, s.pending t = true ↔ f.status ph t = .now .pending
  parent : ∀ t st, f.status ph t = .now st → st ≠ .chosen → s.parent t = f.owner (f.seriesOf t)
  left : ∀ x, (s.series x).queue ++ (s.series x).last.toList = f.remaining x (ph x)
  canceled : ∀ x, (s.series x).canceled = false
  log : ∀ e, e ∈ s.log ↔ f.happened ph e
  once : s.log.Nodup

namespace FlowLocal

variable [DecidableEq τ] [DecidableEq σ] {f : Flow τ σ} {ph ph' : σ → Phase} {s s' : FlowState τ σ}

/-- What has to be shown for the series of `S`, which move, the others standing still. -/
structure Moves (f : Flow τ σ) (S : List σ) (ph ph' : σ → Phase) (s s' : FlowState τ σ)
    (es : List (FlowEvent τ σ)) : Prop where
  same : ∀ z, z ∉ S → ph' z = ph z
  nodup : S.Nodup
  place : ∀ x ∈ S, ∀ k st, ph' x = .running k st → k < (f.tasks x).length
  frames : ∃ R, s.threads.flatten.Perm (S.filterMap (fun z => f.frameOf z (ph z)) ++ R) ∧
    s'.threads.flatten.Perm (S.filterMap (fun z => f.frameOf z (ph' z)) ++ R)
  pending : ∀ t, s'.pending t = if f.seriesOf t ∈ S then decide (f.status ph' t = .now .pending) else s.pending t
  parent : ∀ t st, f.seriesOf t ∈ S → f.status ph' t = .now st → st ≠ .chosen → s'.parent t = f.owner (f.seriesOf t)
  parents : ∀ t, f.seriesOf t ∉ S → s'.parent t = s.parent t
  left : ∀ x ∈ S, (s'.series x).queue ++ (s'.series x).last.toList = f.remaining x (ph' x)
  lefts : ∀ x, x ∉ S → s'.series x = s.series x
  canceled : ∀ x ∈ S, (s'.series x).canceled = false
  log : s'.log = s.log ++ es
  events : ∀ e, f.about e ∈ S → (f.happened ph' e ↔ f.happened ph e ∨ e ∈ es)
  news : ∀ e ∈ es, f.about e ∈ S ∧ ¬ f.happened ph e
  once : es.Nodup

omit [DecidableEq σ] in
theorem status_same {t : τ} (h : ph' (f.seriesOf t) = ph (f.seriesOf t)) : f.status ph' t = f.status ph t := by
  rw [Flow.status, Flow.status, h]

omit [DecidableEq σ] in
theorem happened_same {e : FlowEvent τ σ} (h : ph' (f.about e) = ph (f.about e)) :
    f.happened ph' e ↔ f.happened ph e := by
  cases e with
  | dispatched t => rw [Flow.happened, Flow.happened, status_same h]
  | finished t => rw [Flow.happened, Flow.happened, status_same h]
  | callback x =>
    have h : ph' x = ph x := h
    rw [Flow.happened, Flow.happened, h]

omit [DecidableEq τ] [DecidableEq σ] in
theorem frames_nodup {S : List σ} (hS : S.Nodup) (ph : σ → Phase) :
    (S.filterMap (fun z => f.frameOf z (ph z))).Nodup := by
  refine hS.filterMap fun x y fr hx hy => ?_
  exact (f.home_frameOf hx).symm.trans (f.home_frameOf hy)

omit [DecidableEq τ] [DecidableEq σ] in
theorem mem_framesOf {S : List σ} {fr : FlowFrame τ σ} :
    fr ∈ S.filterMap (fun z => f.frameOf z (ph z)) ↔
      f.home fr ∈ S ∧ f.frameOf (f.home fr) (ph (f.home fr)) = some fr := by
  rw [List.mem_filterMap]
  constructor
  · rintro ⟨z, hz, h⟩
    have := f.home_frameOf h
    subst this
    exact ⟨hz, h⟩
  · rintro ⟨hz, h⟩
    exact ⟨_, hz, h⟩

/-- **The state stays what the phases say** if it does for the series that move. -/
theorem move {S : List σ} {es : List (FlowEvent τ σ)} (h : FlowLocal f ph s) (m : Moves f S ph ph' s s' es) :
    FlowLocal f ph' s' := by
  obtain ⟨R, hold, hnew⟩ := m.frames
  -- the frames of the others: those whose series stands still
  have hsingle := hold.nodup_iff.1 h.single
  have hR : ∀ fr, fr ∈ R ↔ f.home fr ∉ S ∧ f.frameOf (f.home fr) (ph (f.home fr)) = some fr := by
    intro fr
    have hmem := (h.frames fr).symm.trans hold.mem_iff
    rw [List.mem_append, mem_framesOf] at hmem
    constructor
    · intro hr
      have hfr := hmem.2 (Or.inr hr)
      refine ⟨fun hS => ?_, hfr⟩
      exact (List.nodup_append.1 hsingle).2.2 fr (mem_framesOf.2 ⟨hS, hfr⟩) fr hr rfl
    · rintro ⟨hS, hfr⟩
      exact (hmem.1 hfr).resolve_left fun h' => hS h'.1
  have hsame : ∀ t, f.seriesOf t ∉ S → f.status ph' t = f.status ph t := fun t ht => status_same (m.same _ ht)
  refine ⟨?_, ?_, fun fr => ?_, fun t => ?_, fun t st ht hne => ?_, fun x => ?_, fun x => ?_, fun e => ?_, ?_⟩
  · intro x k st hx
    by_cases hS : x ∈ S
    · exact m.place x hS k st hx
    · exact h.place x k st (m.same x hS ▸ hx)
  · rw [hnew.nodup_iff, List.nodup_append]
    refine ⟨frames_nodup m.nodup ph', (List.nodup_append.1 hsingle).2.1, fun a ha b hb heq => ?_⟩
    exact ((hR b).1 hb).1 (heq ▸ (mem_framesOf.1 ha).1)
  · rw [hnew.mem_iff, List.mem_append, mem_framesOf, hR]
    by_cases hS : f.home fr ∈ S
    · exact ⟨fun h => h.elim (fun h => h.2) (fun h => absurd hS h.1), fun h => Or.inl ⟨hS, h⟩⟩
    · rw [m.same _ hS]
      exact ⟨fun h => h.elim (fun h => absurd h.1 hS) (fun h => h.2), fun h => Or.inr ⟨hS, h⟩⟩
  · rw [m.pending t]
    split
    · exact decide_eq_true_iff
    · rename_i hS
      rw [h.pending, hsame t hS]
  · by_cases hS : f.seriesOf t ∈ S
    · exact m.parent t st hS ht hne
    · rw [m.parents t hS]
      exact h.parent t st (hsame t hS ▸ ht) hne
  · by_cases hS : x ∈ S
    · exact m.left x hS
    · rw [m.lefts x hS, m.same x hS]
      exact h.left x
  · by_cases hS : x ∈ S
    · exact m.canceled x hS
    · rw [m.lefts x hS]
      exact h.canceled x
  · rw [m.log, List.mem_append, h.log]
    by_cases hS : f.about e ∈ S
    · exact (m.events e hS).symm
    · rw [happened_same (m.same _ hS)]
      exact ⟨fun h => h.resolve_right fun he => hS (m.news e he).1, Or.inl⟩
  · rw [m.log, List.nodup_append]
    refine ⟨h.once, m.once, fun a ha b hb heq => ?_⟩
    exact (m.news b hb).2 ((h.log b).1 (heq ▸ ha))

/-! ## A task moves on -/

omit [DecidableEq σ] in
theorem status_now {x : σ} {k : Nat} {st : Stage} {t : τ} (hx : ph x = .running k st) (ht : (f.tasks x)[k]? = some t) :
    f.status ph t = .now st := by
  rw [Flow.status, f.seriesOf_getElem ht, hx, f.index_eq ht, Phase.status, if_neg (Nat.lt_irrefl k), if_pos rfl]

theorem status_moved {x : σ} {k : Nat} {t : τ} (ph : σ → Phase) (ht : (f.tasks x)[k]? = some t) (st : Stage) :
    f.status (Function.update ph x (.running k st)) t = .now st := status_now (Function.update_self ..) ht

theorem status_stage {x : σ} {k : Nat} {st : Stage} {t : τ} (st' : Stage) (hx : ph x = .running k st)
    (ht : (f.tasks x)[k]? = some t) (u : τ) :
    f.status (Function.update ph x (.running k st')) u = if u = t then .now st' else f.status ph u := by
  by_cases hu : u = t
  · rw [if_pos hu, hu]
    exact status_now (Function.update_self ..) ht
  · rw [if_neg hu]
    by_cases hs : f.seriesOf u = x
    · have hk : f.index u ≠ k := fun he => by
        have := f.getElem_index u
        rw [hs, he, ht] at this
        exact hu (Option.some.inj this).symm
      rw [Flow.status, Flow.status, hs, Function.update_self, hx]
      simp only [Phase.status, if_neg hk]
    · exact status_same (Function.update_of_ne hs ..)

/-- The frames of two states differ in those one series is responsible for. -/
def SwapFrames (f : Flow τ σ) (x : σ) (φ φ' : Phase) (s s' : FlowState τ σ) : Prop :=
  ∃ R, s.threads.flatten.Perm ((f.frameOf x φ).toList ++ R) ∧ s'.threads.flatten.Perm ((f.frameOf x φ').toList ++ R)

omit [DecidableEq τ] [DecidableEq σ] in
theorem filterMap_one (x : σ) (ph : σ → Phase) :
    [x].filterMap (fun z => f.frameOf z (ph z)) = (f.frameOf x (ph x)).toList := by
  cases h : f.frameOf x (ph x) <;> simp [h]

/-- **The current task of a series moves from one stage to another.** -/
theorem stage {x : σ} {k : Nat} {st : Stage} {t : τ} (st' : Stage) (es : List (FlowEvent τ σ)) (h : FlowLocal f ph s)
    (hx : ph x = .running k st) (ht : (f.tasks x)[k]? = some t)
    (frames : SwapFrames f x (.running k st) (.running k st') s s')
    (pending : s'.pending t = decide (st' = .pending)) (pendings : ∀ u ≠ t, s'.pending u = s.pending u)
    (parent : st' ≠ .chosen → s'.parent t = f.owner x) (parents : ∀ u ≠ t, s'.parent u = s.parent u)
    (series : s'.series = s.series) (log : s'.log = s.log ++ es)
    (dispatched : (Status.now st').dispatched = true ↔ (Status.now st).dispatched = true ∨ .dispatched t ∈ es)
    (finished : (Status.now st').finished = true ↔ (Status.now st).finished = true ∨ .finished t ∈ es)
    (news : ∀ e ∈ es, (e = .dispatched t ∧ (Status.now st).dispatched = false) ∨
      (e = .finished t ∧ (Status.now st).finished = false)) (once : es.Nodup) :
    FlowLocal f (Function.update ph x (.running k st')) s' := by
  have hst := status_stage st' hx ht
  have hnow := status_now hx ht
  have hts := f.seriesOf_getElem ht
  refine h.move (S := [x]) ⟨fun z hz => ?_, List.nodup_singleton x, ?_, ?_, fun u => ?_, ?_, fun u hu => ?_, ?_,
    fun y _ => by rw [series], ?_, log, fun e he => ?_, fun e he => ?_, once⟩
  · exact Function.update_of_ne (by simpa using hz) ..
  · intro y hy k' st'' hk
    rw [List.mem_singleton.1 hy, Function.update_self] at hk
    cases hk
    exact (List.mem_singleton.1 hy) ▸ h.place x k st hx
  · obtain ⟨R, h1, h2⟩ := frames
    refine ⟨R, ?_, ?_⟩
    · rw [filterMap_one, hx]; exact h1
    · rw [filterMap_one, Function.update_self]; exact h2
  · rw [hst]
    by_cases hu : u = t
    · subst hu
      simp [hts, pending]
    · rw [pendings u hu, if_neg hu]
      have hp := h.pending u
      split
      · cases hv : s.pending u with
        | false => rw [hv] at hp; exact (decide_eq_false fun h => Bool.noConfusion (hp.2 h)).symm
        | true => exact (decide_eq_true (hp.1 hv)).symm
      · rfl
  · intro u st'' hu hn hne
    rw [List.mem_singleton] at hu
    rw [hst] at hn
    by_cases hut : u = t
    · rw [if_pos hut] at hn
      cases hn
      rw [hut, hts]
      exact parent hne
    · rw [if_neg hut] at hn
      rw [parents u hut]
      exact h.parent u st'' hn hne
  · exact parents u fun hut => hu (by rw [hut, hts]; exact List.mem_singleton_self x)
  · intro y hy
    rw [List.mem_singleton.1 hy, series, Function.update_self, h.left x, hx]
    rfl
  · intro y _
    rw [series]
    exact h.canceled y
  · cases e with
    | dispatched u =>
      rw [Flow.happened, Flow.happened, hst]
      by_cases hu : u = t
      · rw [if_pos hu, hu, hnow, dispatched]
      · rw [if_neg hu]
        refine ⟨Or.inl, fun h => h.resolve_right fun he => ?_⟩
        rcases news _ he with ⟨heq, _⟩ | ⟨heq, _⟩ <;> cases heq
        exact hu rfl
    | finished u =>
      rw [Flow.happened, Flow.happened, hst]
      by_cases hu : u = t
      · rw [if_pos hu, hu, hnow, finished]
      · rw [if_neg hu]
        refine ⟨Or.inl, fun h => h.resolve_right fun he => ?_⟩
        rcases news _ he with ⟨heq, _⟩ | ⟨heq, _⟩ <;> cases heq
        exact hu rfl
    | callback y =>
      have hy : y = x := List.mem_singleton.1 he
      rw [Flow.happened, Flow.happened, hy, Function.update_self, hx]
      refine ⟨fun h => h.elim (fun h => (by cases h)) (fun h => (by cases h)), fun h => ?_⟩
      rcases h with (h | h) | he
      · cases h
      · cases h
      · rcases news _ he with ⟨heq, _⟩ | ⟨heq, _⟩ <;> cases heq
  · rcases news e he with ⟨rfl, hn⟩ | ⟨rfl, hn⟩
    · refine ⟨by simp [Flow.about, hts], ?_⟩
      rw [Flow.happened, hnow, hn]
      simp
    · refine ⟨by simp [Flow.about, hts], ?_⟩
      rw [Flow.happened, hnow, hn]
      simp

/-! ## A series moves on -/

/-- A phase in which the callback has run. -/
def ended (φ : Phase) : Prop := φ = .finished ∨ φ = .counted

omit [DecidableEq σ] in
theorem status_of {x : σ} {u : τ} (h : f.seriesOf u = x) : f.status ph u = (ph x).status (f.index u) := by
  rw [Flow.status, h]

/-- **A series goes from one phase to another**, no task of it being dispatched or finished by that. -/
theorem series {x : σ} (φ' : Phase) (w : SeriesWork τ) (es : List (FlowEvent τ σ)) (h : FlowLocal f ph s)
    (place : ∀ k st, φ' = .running k st → k < (f.tasks x).length)
    (frames : SwapFrames f x (ph x) φ' s s')
    (quiet : ∀ i, (ph x).status i ≠ .now .pending ∧ φ'.status i ≠ .now .pending) (pending : s'.pending = s.pending)
    (parent : ∀ u st, f.seriesOf u = x → φ'.status (f.index u) = .now st → st ≠ .chosen → s'.parent u = f.owner x)
    (parents : ∀ u, f.seriesOf u ≠ x → s'.parent u = s.parent u)
    (work : s'.series = Function.update s.series x w) (left : w.queue ++ w.last.toList = f.remaining x φ')
    (canceled : w.canceled = false) (log : s'.log = s.log ++ es)
    (same : ∀ i < (f.tasks x).length, (φ'.status i).dispatched = ((ph x).status i).dispatched ∧
      (φ'.status i).finished = ((ph x).status i).finished)
    (callback : ended φ' ↔ ended (ph x) ∨ .callback x ∈ es) (news : ∀ e ∈ es, e = .callback x ∧ ¬ ended (ph x))
    (once : es.Nodup) : FlowLocal f (Function.update ph x φ') s' := by
  refine h.move (S := [x]) ⟨fun z hz => ?_, List.nodup_singleton x, ?_, ?_, fun u => ?_, ?_, fun u hu => ?_, ?_,
    fun y hy => ?_, ?_, log, fun e he => ?_, fun e he => ?_, once⟩
  · exact Function.update_of_ne (by simpa using hz) ..
  · intro y hy k st hk
    rw [List.mem_singleton.1 hy, Function.update_self] at hk
    exact (List.mem_singleton.1 hy) ▸ place k st hk
  · obtain ⟨R, h1, h2⟩ := frames
    refine ⟨R, ?_, ?_⟩
    · rw [filterMap_one]; exact h1
    · rw [filterMap_one, Function.update_self]; exact h2
  · rw [pending]
    split
    · rename_i hu
      rw [List.mem_singleton] at hu
      have hp := h.pending u
      rw [status_of hu] at hp
      rw [status_of hu, Function.update_self, decide_eq_false (quiet _).2]
      exact Bool.eq_false_iff.2 fun hv => (quiet _).1 (hp.1 hv)
    · rfl
  · intro u st hu hn hne
    rw [List.mem_singleton] at hu
    rw [status_of hu, Function.update_self] at hn
    rw [hu]
    exact parent u st hu hn hne
  · exact parents u (by simpa using hu)
  · intro y hy
    rw [List.mem_singleton.1 hy, work, Function.update_self, Function.update_self]
    exact left
  · rw [work]
    exact Function.update_of_ne (by simpa using hy) ..
  · intro y hy
    rw [List.mem_singleton.1 hy, work, Function.update_self]
    exact canceled
  · have hx : f.about e = x := List.mem_singleton.1 he
    have hnot : ∀ e', e' ≠ .callback x → e' ∉ es := fun e' hne he' => hne (news e' he').1
    cases e with
    | dispatched u =>
      have hu : f.seriesOf u = x := hx
      rw [Flow.happened, Flow.happened, status_of hu, status_of hu, Function.update_self,
        (same _ (hu ▸ f.index_lt u)).1]
      exact ⟨Or.inl, fun h => h.resolve_right (hnot _ (by simp))⟩
    | finished u =>
      have hu : f.seriesOf u = x := hx
      rw [Flow.happened, Flow.happened, status_of hu, status_of hu, Function.update_self,
        (same _ (hu ▸ f.index_lt u)).2]
      exact ⟨Or.inl, fun h => h.resolve_right (hnot _ (by simp))⟩
    | callback y =>
      have hy : y = x := hx
      rw [Flow.happened, Flow.happened, hy, Function.update_self]
      exact callback
  · obtain ⟨rfl, hn⟩ := news e he
    exact ⟨List.mem_singleton_self x, hn⟩

/-- The first task of a sub-series is linked. -/
theorem begin {x : σ} (h : FlowLocal f ph s) (hx : ph x = .idle)
    (frames : SwapFrames f x .idle (.running 0 .linked) s s') (pending : s'.pending = s.pending)
    (parent : s'.parent = Function.update s.parent (f.first x) (f.owner x)) (work : s'.series = s.series)
    (log : s'.log = s.log) : FlowLocal f (Function.update ph x (.running 0 .linked)) s' := by
  have h0 : (f.tasks x)[0]? = some (f.first x) := rfl
  refine h.series _ (s.series x) [] (fun k st hk => ?_) (hx ▸ frames) (fun i => ?_) pending (fun u st hu hn _ => ?_)
    (fun u hu => ?_) ?_ ?_ (h.canceled x) (by rw [log, List.append_nil]) (fun i _ => ?_) ?_ (by simp) List.nodup_nil
  · cases hk
    exact f.tasks_length x
  · rw [hx]
    refine ⟨by simp [Phase.status], ?_⟩
    simp only [Phase.status]
    split
    · simp
    · split <;> simp
  · have hi : f.index u = 0 := by
      simp only [Phase.status, Nat.not_lt_zero, if_false] at hn
      by_contra hne
      rw [if_neg hne] at hn
      cases hn
    have hut : u = f.first x := f.index_inj (hu.trans (f.seriesOf_getElem h0).symm) (hi.trans (f.index_eq h0).symm)
    rw [parent, hut, Function.update_self]
  · rw [parent, Function.update_of_ne]
    rintro rfl
    exact hu (f.seriesOf_getElem h0)
  · rw [work, Function.update_eq_self]
  · rw [h.left x, hx]
    rw [Flow.remaining, Flow.remaining, List.drop_one]
  · rw [hx]
    simp only [Phase.status, Nat.not_lt_zero, if_false]
    split <;> exact ⟨rfl, rfl⟩
  · rw [hx]
    simp [ended]

/-- The series' next task is chosen. -/
theorem popSome {x : σ} {k : Nat} {t : τ} {w : SeriesWork τ} (h : FlowLocal f ph s) (hx : ph x = .running k .popping)
    (hp : (s.series x).pop = (some t, w)) (frames : SwapFrames f x (.running k .popping) (.running (k + 1) .chosen) s s')
    (same : s'.pending = s.pending ∧ s'.parent = s.parent ∧ s'.log = s.log)
    (work : s'.series = Function.update s.series x w) :
    FlowLocal f (Function.update ph x (.running (k + 1) .chosen)) s' := by
  obtain ⟨hleft, hcan⟩ := SeriesWork.pop_some (h.canceled x) hp
  rw [h.left x, hx] at hleft
  have hdrop : (f.tasks x).drop (k + 1) = t :: (w.queue ++ w.last.toList) := hleft
  refine h.series _ w [] (fun k' st hk => ?_) (hx ▸ frames) (fun i => ?_) same.1 (fun u st _ hn hne => ?_)
    (fun u _ => by rw [same.2.1]) work ?_ hcan (by rw [same.2.2, List.append_nil]) (fun i _ => ?_) ?_ (by simp)
    List.nodup_nil
  · cases hk
    have := congrArg List.length hdrop
    rw [List.length_drop, List.length_cons] at this
    omega
  · rw [hx]
    simp only [Phase.status]
    constructor
    all_goals
      split
      · simp
      · split <;> simp
  · simp only [Phase.status] at hn
    split at hn
    · cases hn
    · split at hn
      · cases hn
        exact absurd rfl hne
      · cases hn
  · have htail := congrArg List.tail hdrop
    rw [List.tail_drop] at htail
    exact htail.symm
  · rw [hx]
    simp only [Phase.status]
    rcases Nat.lt_trichotomy i k with hi | rfl | hi
    · rw [if_pos (by omega), if_pos hi]
      exact ⟨rfl, rfl⟩
    · rw [if_pos (by omega), if_neg (by omega), if_pos rfl]
      exact ⟨rfl, rfl⟩
    · rw [if_neg (show ¬ i < k + 1 by omega), if_neg (show ¬ i < k by omega), if_neg (show ¬ i = k by omega)]
      split <;> exact ⟨rfl, rfl⟩
  · rw [hx]
    simp [ended]

omit [DecidableEq σ] in
theorem popSome_task {x : σ} {k : Nat} {t : τ} {w : SeriesWork τ} (h : FlowLocal f ph s) (hx : ph x = .running k .popping)
    (hp : (s.series x).pop = (some t, w)) : (f.tasks x)[k + 1]? = some t := by
  obtain ⟨hleft, -⟩ := SeriesWork.pop_some (h.canceled x) hp
  rw [h.left x, hx] at hleft
  have hdrop : (f.tasks x).drop (k + 1) = t :: (w.queue ++ w.last.toList) := hleft
  have := congrArg (fun l => l[0]?) hdrop
  rw [List.getElem?_drop] at this
  exact this

/-- The series has no task left, and its callback runs. -/
theorem popNone {x : σ} {k : Nat} {w : SeriesWork τ} (h : FlowLocal f ph s) (hx : ph x = .running k .popping)
    (hp : (s.series x).pop = (none, w)) (frames : SwapFrames f x (.running k .popping) .finished s s')
    (same : s'.pending = s.pending ∧ s'.parent = s.parent) (log : s'.log = s.log ++ [.callback x])
    (work : s'.series = Function.update s.series x w) : FlowLocal f (Function.update ph x .finished) s' := by
  obtain ⟨hleft, hnil, hcan⟩ := SeriesWork.pop_none (h.canceled x) hp
  rw [h.left x, hx] at hleft
  have hlen : (f.tasks x).length ≤ k + 1 := List.drop_eq_nil_iff.1 hleft
  refine h.series _ w [.callback x] (fun k' st hk => ?_) (hx ▸ frames) (fun i => ?_) same.1 (fun u st _ hn _ => ?_)
    (fun u _ => by rw [same.2]) work hnil hcan log (fun i hi => ?_) ?_ (fun e he => ?_) (List.nodup_singleton _)
  · cases hk
  · rw [hx]
    refine ⟨?_, by simp [Phase.status]⟩
    simp only [Phase.status]
    split
    · simp
    · split <;> simp
  · cases hn
  · rw [hx]
    simp only [Phase.status]
    split
    · exact ⟨rfl, rfl⟩
    · rw [if_pos (by omega)]
      exact ⟨rfl, rfl⟩
  · simp [ended]
  · refine ⟨List.mem_singleton.1 he, ?_⟩
    rw [hx]
    simp [ended]

/-- The owner counts a series that is over; with none the flow has ended. -/
theorem count {x : σ} (h : FlowLocal f ph s) (hx : ph x = .finished) (frames : SwapFrames f x .finished .counted s s')
    (same : s'.pending = s.pending ∧ s'.parent = s.parent ∧ s'.series = s.series ∧ s'.log = s.log) :
    FlowLocal f (Function.update ph x .counted) s' := by
  refine h.series _ (s.series x) [] (fun k' st hk => ?_) (hx ▸ frames) (fun i => ?_) same.1 (fun u st _ hn _ => ?_)
    (fun u _ => by rw [same.2.1]) ?_ ?_ (h.canceled x) (by rw [same.2.2.2, List.append_nil]) (fun i hi => ?_) ?_
    (by simp) List.nodup_nil
  · cases hk
  · rw [hx]
    exact ⟨by simp [Phase.status], by simp [Phase.status]⟩
  · cases hn
  · rw [same.2.2.1, Function.update_eq_self]
  · rw [h.left x, hx]
    rfl
  · rw [hx]
    exact ⟨rfl, rfl⟩
  · rw [hx]
    simp [ended]

end FlowLocal

end Tinywf
