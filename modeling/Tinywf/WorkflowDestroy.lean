import Tinywf.SeriesQueue
import Mathlib.Logic.Relation
/-!
# WorkflowDestroy — works that are dismissed or canceled

`~ParallelWork` dismisses its series, and dismissing a series deletes its tasks, parallel works among them.  `Nesting` says
of the objects in memory that what hangs below one of them is a finite nesting, and in which order it is destroyed; that
every object stands in it once is that the list has no duplicates.  Each of the functions then deletes just the objects
of the list (`Nesting.destroyed`).

The functions call each other, and here take the depth they may go to: they settle on a result once that suffices.
-/
namespace Tinywf

variable {τ σ α β : Type*}

/-! ## Functions of a depth -/

/-- **From some depth on the result is `a`.** -/
def Settles (f : Nat → Option α) (a : α) : Prop := ∃ n, ∀ k, n ≤ k → f k = some a

namespace Settles

variable {f g : Nat → Option α} {a : α} {b : β}

theorem const (a : α) : Settles (fun _ => some a) a := ⟨0, fun _ _ => rfl⟩

theorem deeper (hg : Settles g a) (h : ∀ k, f (k + 1) = g k) : Settles f a := by
  obtain ⟨n, hn⟩ := hg
  refine ⟨n + 1, fun k hk => ?_⟩
  cases k with
  | zero => exact absurd hk (Nat.not_succ_le_zero n)
  | succ k =>
    rw [h]
    exact hn k (Nat.le_of_succ_le_succ hk)

/-- One function after another. -/
theorem bind {f' : Nat → Option β} {g : Nat → α → Option β} (hf : Settles f a) (h : ∀ k, f' (k + 1) = (f k).bind (g k))
    (hg : Settles (fun k => g k a) b) : Settles f' b := by
  obtain ⟨n, hn⟩ := hf
  obtain ⟨m, hm⟩ := hg
  refine ⟨max n m + 1, fun k hk => ?_⟩
  cases k with
  | zero => exact absurd hk (Nat.not_succ_le_zero _)
  | succ k =>
    have hk := Nat.le_of_succ_le_succ hk
    rw [h, hn k (Nat.le_trans (Nat.le_max_left ..) hk), Option.bind_some]
    exact hm k (Nat.le_trans (Nat.le_max_right ..) hk)

theorem map (hf : Settles f a) (g : α → β) : Settles (fun k => (f k).map g) (g a) := by
  obtain ⟨n, hn⟩ := hf
  refine ⟨n, fun k hk => ?_⟩
  dsimp only
  rw [hn k hk]
  rfl

end Settles

/-! ## The objects -/

structure SeriesObject (τ : Type*) extends SeriesRing τ where
  first : τ
  /-- `callback` is not null. -/
  callback : Bool
  inParallel : Bool

inductive WorkEvent (τ σ : Type*) where
  | deletedTask (t : τ)
  | deletedSeries (x : σ)
  | seriesCallback (x : σ)
  | parallelCallback (p : τ)
deriving DecidableEq

structure WorkHeap (τ σ : Type*) where
  series : σ → SeriesObject τ
  /-- The series of a `ParallelWork`, as many as `subtasks_nr`; other tasks have none. -/
  allSeries : τ → Option (List σ)
  parallelCallback : τ → Bool
  /-- The series a task is in, if there is one. -/
  seriesOf : τ → Option σ
  log : List (WorkEvent τ σ)

namespace WorkHeap

variable [DecidableEq σ]

def happens (h : WorkHeap τ σ) (es : List (WorkEvent τ σ)) : WorkHeap τ σ := { h with log := h.log ++ es }

def setSeries (h : WorkHeap τ σ) (x : σ) (o : SeriesObject τ) : WorkHeap τ σ :=
  { h with series := Function.update h.series x o }

/-- What `pop_task` does when no task is left: the callback, and `delete this`. -/
def lastEvents (o : SeriesObject τ) (x : σ) : List (WorkEvent τ σ) :=
  (if o.callback then [.seriesCallback x] else []) ++ if o.inParallel then [] else [.deletedSeries x]

/-- `SeriesWork::pop_task` -/
def popTask (h : WorkHeap τ σ) (x : σ) : Option τ × WorkHeap τ σ :=
  let r := (h.series x).toSeriesRing.popTask
  let h' := h.setSeries x { h.series x with toSeriesRing := r.2 }
  match r.1 with
  | some t => (some t, h')
  | none => (none, h'.happens (lastEvents (h.series x) x))

mutual

/-- `delete task`, with `~ParallelWork`. -/
def deleteTask : Nat → WorkHeap τ σ → τ → Option (WorkHeap τ σ)
  | 0, _, _ => none
  | k + 1, h, t => match h.allSeries t with
    | none => some (h.happens [.deletedTask t])
    | some l => (dismissAll k h l).map fun h => h.happens [.deletedTask t]

/-- The loop of `~ParallelWork`. -/
def dismissAll : Nat → WorkHeap τ σ → List σ → Option (WorkHeap τ σ)
  | 0, _, _ => none
  | _ + 1, h, [] => some h
  | k + 1, h, x :: l =>
    (dismissRecursive k (h.setSeries x { h.series x with inParallel := false }) x).bind fun h => dismissAll k h l

/-- `SeriesWork::dismiss_recursive` -/
def dismissRecursive : Nat → WorkHeap τ σ → σ → Option (WorkHeap τ σ)
  | 0, _, _ => none
  | k + 1, h, x => deleteAll k (h.setSeries x { h.series x with callback := false }) x (h.series x).first

/-- `do { delete task; task = pop_task(); } while (task)` -/
def deleteAll : Nat → WorkHeap τ σ → σ → τ → Option (WorkHeap τ σ)
  | 0, _, _, _ => none
  | k + 1, h, x, task => (deleteTask k h task).bind fun h => match h.popTask x with
    | (some task, h) => deleteAll k h x task
    | (none, h) => some h

end

/-- `SeriesWork::dismiss`; its assertion fails for a series in a parallel work. -/
def dismiss (k : Nat) (h : WorkHeap τ σ) (x : σ) : Option (WorkHeap τ σ) :=
  if (h.series x).inParallel then none else dismissRecursive k h x

/-- `SeriesWork::pop` -/
def pop (k : Nat) (h : WorkHeap τ σ) (x : σ) : Option (Option τ × WorkHeap τ σ) :=
  let r := h.popTask x
  if !(h.series x).canceled then some r
  else match r.1 with
    | some task => (deleteAll k r.2 x task).map fun h => (none, h)
    | none => some (none, r.2)

/-- `ParallelWork::dismiss`; its assertion fails for one in a series. -/
def parallelDismiss (k : Nat) (h : WorkHeap τ σ) (p : τ) : Option (WorkHeap τ σ) :=
  if (h.seriesOf p).isSome then none else deleteTask k h p

/-- What `ParallelWork::done` does before `delete this`: the series are deleted, not dismissed, and none is left. -/
def completed [DecidableEq τ] (h : WorkHeap τ σ) (p : τ) : WorkHeap τ σ :=
  { h.happens ((if h.parallelCallback p then [.parallelCallback p] else []) ++
      ((h.allSeries p).getD []).map .deletedSeries) with
    allSeries := Function.update h.allSeries p (some []) }

/-- `ParallelWork::done` -/
def parallelDone [DecidableEq τ] (k : Nat) (h : WorkHeap τ σ) (p : τ) : Option (Option τ × WorkHeap τ σ) :=
  (h.seriesOf p).bind fun x => (deleteTask k (h.completed p) p).bind fun h' => pop k h' x

end WorkHeap

/-! ## Nestings -/

/-- The tasks of a series that `pop_task` will return. -/
def SeriesWork.waiting (w : SeriesWork τ) : List τ := w.queue ++ w.last.toList

/-- The object says which tasks wait. -/
theorem SeriesRing.Refines.waiting_eq {r : SeriesRing τ} {w w' : SeriesWork τ} (h : r.Refines w) (h' : r.Refines w') :
    w.waiting = w'.waiting := by
  unfold SeriesWork.waiting
  rw [h.line.unique h'.line h.room h'.room, h.last.symm.trans h'.last]

/-- What is destroyed by one of the functions. -/
inductive WorkPart (τ σ : Type*) where
  | task (t : τ)
  | all (l : List σ)
  | series (x : σ)
  | line (ts : List τ)

/-- **A finite nesting in memory**, with its objects in the order they go. -/
inductive Nesting (h : WorkHeap τ σ) : WorkPart τ σ → List (τ ⊕ σ) → Prop
  | leaf {t : τ} (plain : h.allSeries t = none) : Nesting h (.task t) [.inl t]
  | parallel {t : τ} {l : List σ} {es : List (τ ⊕ σ)} (works : h.allSeries t = some l) (inner : Nesting h (.all l) es) :
      Nesting h (.task t) (es ++ [.inl t])
  | allNil : Nesting h (.all []) []
  | allCons {x : σ} {l : List σ} {es es' : List (τ ⊕ σ)} (head : Nesting h (.series x) es) (tail : Nesting h (.all l) es') :
      Nesting h (.all (x :: l)) (es ++ es')
  | series {x : σ} {w : SeriesWork τ} {es : List (τ ⊕ σ)} (stands : (h.series x).Refines w)
      (inner : Nesting h (.line ((h.series x).first :: w.waiting)) es) : Nesting h (.series x) (es ++ [.inr x])
  | lineNil : Nesting h (.line []) []
  | lineCons {t : τ} {ts : List τ} {es es' : List (τ ⊕ σ)} (head : Nesting h (.task t) es) (tail : Nesting h (.line ts) es') :
      Nesting h (.line (t :: ts)) (es ++ es')

/-- An object is deleted. -/
def deleted : τ ⊕ σ → WorkEvent τ σ
  | .inl t => .deletedTask t
  | .inr x => .deletedSeries x

/-- `h₁` has the objects `es` as `h` has them, whatever was done to the flags of the series. -/
structure Untouched (h h₁ : WorkHeap τ σ) (es : List (τ ⊕ σ)) : Prop where
  works : h₁.allSeries = h.allSeries
  ring : ∀ x, .inr x ∈ es → (h₁.series x).toSeriesRing = (h.series x).toSeriesRing
  first : ∀ x, .inr x ∈ es → (h₁.series x).first = (h.series x).first

/-- What comes to the log, and that no other series is touched but those of `es`. -/
structure Destroys (h h' : WorkHeap τ σ) (es : List (τ ⊕ σ)) (evs : List (WorkEvent τ σ)) : Prop where
  log : h'.log = h.log ++ evs
  works : h'.allSeries = h.allSeries
  series : ∀ x, .inr x ∉ es → h'.series x = h.series x

theorem Destroys.trans {h h' h'' : WorkHeap τ σ} {es es' : List (τ ⊕ σ)} {evs evs' : List (WorkEvent τ σ)}
    (d : Destroys h h' es evs) (d' : Destroys h' h'' es' evs') : Destroys h h'' (es ++ es') (evs ++ evs') := by
  refine ⟨?_, d'.works.trans d.works, fun x hx => ?_⟩
  · rw [d'.log, d.log, List.append_assoc]
  · rw [List.mem_append, not_or] at hx
    exact (d'.series x hx.2).trans (d.series x hx.1)

theorem Destroys.mono {h h' : WorkHeap τ σ} {es es' : List (τ ⊕ σ)} {evs : List (WorkEvent τ σ)}
    (d : Destroys h h' es evs) (sub : ∀ o ∈ es, o ∈ es') : Destroys h h' es' evs :=
  ⟨d.log, d.works, fun x hx => d.series x fun hm => hx (sub _ hm)⟩

/-- What is destroyed does not touch what stands elsewhere. -/
theorem Untouched.after {h h₁ h₂ : WorkHeap τ σ} {es es' : List (τ ⊕ σ)} {evs : List (WorkEvent τ σ)}
    (u : Untouched h h₁ es') (d : Destroys h₁ h₂ es evs) (apart : ∀ x, .inr x ∈ es' → .inr x ∉ es) : Untouched h h₂ es' :=
  ⟨d.works.trans u.works, fun x hx => by rw [d.series x (apart x hx)]; exact u.ring x hx,
    fun x hx => by rw [d.series x (apart x hx)]; exact u.first x hx⟩

theorem Untouched.mono {h h₁ : WorkHeap τ σ} {es es' : List (τ ⊕ σ)} (u : Untouched h h₁ es) (sub : ∀ o ∈ es', o ∈ es) :
    Untouched h h₁ es' := ⟨u.works, fun x hx => u.ring x (sub _ hx), fun x hx => u.first x (sub _ hx)⟩

variable [DecidableEq σ]

/-- The flags of a series do not matter. -/
theorem Untouched.flags {h h₁ : WorkHeap τ σ} {es : List (τ ⊕ σ)} (u : Untouched h h₁ es) {x : σ} {o : SeriesObject τ}
    (ring : o.toSeriesRing = (h₁.series x).toSeriesRing) (first : o.first = (h₁.series x).first) :
    Untouched h (h₁.setSeries x o) es := by
  refine ⟨u.works, fun y hy => ?_, fun y hy => ?_⟩
  · unfold WorkHeap.setSeries
    dsimp only
    rw [Function.update_apply]
    split
    · rename_i e
      rw [ring, ← e]
      exact u.ring y hy
    · exact u.ring y hy
  · unfold WorkHeap.setSeries
    dsimp only
    rw [Function.update_apply]
    split
    · rename_i e
      rw [first, ← e]
      exact u.first y hy
    · exact u.first y hy

omit [DecidableEq σ] in
theorem lastEvents_quiet {o : SeriesObject τ} (x : σ) (callback : o.callback = false) (inParallel : o.inParallel = false) :
    WorkHeap.lastEvents o x = [deleted (.inr x)] := by
  unfold WorkHeap.lastEvents
  rw [callback, inParallel]
  rfl

omit [DecidableEq σ] in
theorem lastEvents_congr {o o' : SeriesObject τ} (x : σ) (callback : o.callback = o'.callback)
    (inParallel : o.inParallel = o'.inParallel) : WorkHeap.lastEvents o x = WorkHeap.lastEvents o' x := by
  unfold WorkHeap.lastEvents
  rw [callback, inParallel]

@[simp] theorem setSeries_self (h : WorkHeap τ σ) (x : σ) (o : SeriesObject τ) : (h.setSeries x o).series x = o :=
  Function.update_self ..

/-- A flag set before. -/
theorem Destroys.behind {h h' : WorkHeap τ σ} {x : σ} {o : SeriesObject τ} {es : List (τ ⊕ σ)} {evs : List (WorkEvent τ σ)}
    (d : Destroys (h.setSeries x o) h' es evs) (mem : .inr x ∈ es) : Destroys h h' es evs := by
  refine ⟨d.log, d.works, fun y hy => (d.series y hy).trans ?_⟩
  have hne : y ≠ x := fun e => hy (by rw [e]; exact mem)
  exact Function.update_of_ne hne ..

theorem setSeries_destroys (h : WorkHeap τ σ) (x : σ) (o : SeriesObject τ) :
    Destroys h (h.setSeries x o) [.inr x] [] := by
  refine ⟨(List.append_nil _).symm, rfl, fun y hy => ?_⟩
  have hne : y ≠ x := fun e => hy (by rw [e]; exact List.mem_cons_self)
  exact Function.update_of_ne hne ..

omit [DecidableEq σ] in
theorem waiting_popTask (w : SeriesWork τ) :
    w.popTask.1 = w.waiting.head? ∧ w.popTask.2.waiting = w.waiting.tail := by
  obtain ⟨queue, last, canceled, finished⟩ := w
  unfold SeriesWork.popTask SeriesWork.waiting
  cases queue with
  | cons t q => exact ⟨rfl, rfl⟩
  | nil => cases last <;> exact ⟨rfl, rfl⟩

/-- `pop_task` takes what comes next. -/
theorem popTask_next {h : WorkHeap τ σ} {x : σ} {w : SeriesWork τ} {t : τ} {ts : List τ} (stands : (h.series x).Refines w)
    (next : w.waiting = t :: ts) :
    ∃ h' w', h.popTask x = (some t, h') ∧ Destroys h h' [.inr x] [] ∧ (h'.series x).Refines w' ∧ w'.waiting = ts ∧
      (h'.series x).callback = (h.series x).callback ∧ (h'.series x).inParallel = (h.series x).inParallel := by
  obtain ⟨hout, href⟩ := SeriesRing.popTask_refines stands
  obtain ⟨hhead, htail⟩ := waiting_popTask w
  rw [next] at hhead htail
  refine ⟨h.setSeries x { h.series x with toSeriesRing := (h.series x).toSeriesRing.popTask.2 }, w.popTask.2, ?_,
    setSeries_destroys h x _, ?_, htail, ?_, ?_⟩
  · unfold WorkHeap.popTask
    dsimp only
    rw [hout, hhead]
    rfl
  · rw [setSeries_self]
    exact href
  · rw [setSeries_self]
  · rw [setSeries_self]

/-- With no task left it ends the series. -/
theorem popTask_last {h : WorkHeap τ σ} {x : σ} {w : SeriesWork τ} (stands : (h.series x).Refines w)
    (last : w.waiting = []) :
    ∃ h', h.popTask x = (none, h') ∧ Destroys h h' [.inr x] (WorkHeap.lastEvents (h.series x) x) := by
  obtain ⟨hout, -⟩ := SeriesRing.popTask_refines stands
  obtain ⟨hhead, -⟩ := waiting_popTask w
  rw [last] at hhead
  have hset := setSeries_destroys h x { h.series x with toSeriesRing := (h.series x).toSeriesRing.popTask.2 }
  refine ⟨(h.setSeries x { h.series x with toSeriesRing := (h.series x).toSeriesRing.popTask.2 }).happens
    (WorkHeap.lastEvents (h.series x) x), ?_, ?_, hset.works, hset.series⟩
  · unfold WorkHeap.popTask
    dsimp only
    rw [hout, hhead]
    rfl
  · exact congrArg (· ++ WorkHeap.lastEvents (h.series x) x) (hset.log.trans (List.append_nil _))

/-! ## Destroying a nesting -/

/-- **What the functions do to a nesting** when the heap is `h₁`. -/
def WorkPart.Destroyed (h₁ : WorkHeap τ σ) (es : List (τ ⊕ σ)) : WorkPart τ σ → Prop
  | .task t => ∃ h', Settles (fun k => h₁.deleteTask k t) h' ∧ Destroys h₁ h' es (es.map deleted)
  | .all l => ∃ h', Settles (fun k => h₁.dismissAll k l) h' ∧ Destroys h₁ h' es (es.map deleted)
  | .series x => (h₁.series x).inParallel = false →
      ∃ h', Settles (fun k => h₁.dismissRecursive k x) h' ∧ Destroys h₁ h' es (es.map deleted)
  | .line ts => ∀ t w x, ts = t :: w.waiting → (h₁.series x).Refines w → .inr x ∉ es →
      ∃ h', Settles (fun k => h₁.deleteAll k x t) h' ∧
        Destroys h₁ h' (es ++ [.inr x]) (es.map deleted ++ WorkHeap.lastEvents (h₁.series x) x)

variable {h : WorkHeap τ σ}

/-- **Each function deletes what the nesting says**, in its order. -/
theorem Nesting.destroyed {p : WorkPart τ σ} {es : List (τ ⊕ σ)} (nest : Nesting h p es) :
    ∀ {h₁ : WorkHeap τ σ}, Untouched h h₁ es → es.Nodup → p.Destroyed h₁ es := by
  induction nest with
  | @leaf t plain =>
    intro h₁ u _
    refine ⟨h₁.happens [.deletedTask t], (Settles.const _).deeper fun k => ?_, rfl, rfl, fun _ _ => rfl⟩
    rw [WorkHeap.deleteTask, u.works, plain]
  | @parallel t l es works inner ih =>
    intro h₁ u nodup
    have hsub : ∀ o ∈ es, o ∈ es ++ [.inl t] := fun o ho => List.mem_append_left _ ho
    obtain ⟨h', settles, d⟩ := ih (u.mono hsub) (List.nodup_append.1 nodup).1
    refine ⟨h'.happens [.deletedTask t], (settles.map fun h => h.happens [.deletedTask t]).deeper fun k => ?_, ?_⟩
    · rw [WorkHeap.deleteTask, u.works, works]
    · rw [List.map_append]
      exact d.trans ⟨rfl, rfl, fun _ _ => rfl⟩
  | allNil =>
    intro h₁ _ _
    refine ⟨h₁, (Settles.const h₁).deeper fun k => ?_, (List.append_nil _).symm, rfl, fun _ _ => rfl⟩
    rw [WorkHeap.dismissAll]
  | @allCons x l es es' head tail ihHead ihTail =>
    intro h₁ u nodup
    obtain ⟨hnd, hnd', hapart⟩ := List.nodup_append.1 nodup
    have hmem : .inr x ∈ es := by
      cases head
      exact List.mem_append_right _ List.mem_cons_self
    have uHead : Untouched h (h₁.setSeries x { h₁.series x with inParallel := false }) es :=
      (u.mono fun o ho => List.mem_append_left _ ho).flags rfl rfl
    obtain ⟨h₂, settles, d⟩ := ihHead uHead hnd (by rw [setSeries_self])
    have d := d.behind hmem
    obtain ⟨h₃, settles', d'⟩ := ihTail ((u.mono fun o ho => List.mem_append_right _ ho).after d
      fun y hy hy' => hapart _ hy' _ hy rfl) hnd'
    refine ⟨h₃, settles.bind (fun k => by rw [WorkHeap.dismissAll]) settles', ?_⟩
    rw [List.map_append]
    exact d.trans d'
  | @series x w es stands inner ih =>
    intro h₁ u nodup inParallel
    obtain ⟨hnd, -, hapart⟩ := List.nodup_append.1 nodup
    have hx : .inr x ∉ es := fun hm => hapart _ hm _ List.mem_cons_self rfl
    have hmem : .inr x ∈ es ++ [.inr x] := List.mem_append_right _ List.mem_cons_self
    have u' : Untouched h (h₁.setSeries x { h₁.series x with callback := false }) es :=
      (u.mono fun o ho => List.mem_append_left _ ho).flags rfl rfl
    obtain ⟨h', settles, d⟩ := ih u' hnd (h.series x).first w x rfl
      (by rw [setSeries_self, u.ring x hmem]; exact stands) hx
    rw [setSeries_self, lastEvents_quiet (o := { h₁.series x with callback := false }) x rfl inParallel] at d
    refine ⟨h', settles.deeper fun k => ?_, ?_⟩
    · rw [WorkHeap.dismissRecursive, u.first x hmem]
    · rw [List.map_append]
      exact d.behind hmem
  | lineNil => exact fun _ _ t w x e => by cases e
  | @lineCons t ts es es' head tail ihHead ihTail =>
    intro h₁ u nodup t' w x e stands hx
    cases e
    obtain ⟨hnd, hnd', hapart⟩ := List.nodup_append.1 nodup
    rw [List.mem_append, not_or] at hx
    obtain ⟨h₂, settles, d⟩ := ihHead (u.mono fun o ho => List.mem_append_left _ ho) hnd
    have hsame : h₂.series x = h₁.series x := d.series x hx.1
    cases hw : w.waiting with
    | nil =>
      rw [hw] at tail
      cases tail
      obtain ⟨h₃, hpop, d'⟩ := popTask_last (hsame ▸ stands) hw
      refine ⟨h₃, settles.bind (fun k => by rw [WorkHeap.deleteAll]) ?_, ?_⟩
      · rw [hpop]
        exact Settles.const h₃
      · rw [hsame] at d'
        rw [List.append_nil]
        exact d.trans d'
    | cons t' ts =>
      obtain ⟨h₃, w', hpop, d', stands', hw', hcallback, hparallel⟩ := popTask_next (hsame ▸ stands) hw
      have u₂ : Untouched h h₂ es' := (u.mono fun o ho => List.mem_append_right _ ho).after d
        fun y hy hy' => hapart _ hy' _ hy rfl
      have u₃ : Untouched h h₃ es' := u₂.after d' fun y hy hy' => hx.2 (List.mem_singleton.1 hy' ▸ hy)
      obtain ⟨h₄, settles', d''⟩ := ihTail u₃ hnd' t' w' x (by rw [hw, hw']) stands' hx.2
      refine ⟨h₄, settles.bind (fun k => by rw [WorkHeap.deleteAll]) ?_, ?_⟩
      · rw [hpop]
        exact settles'
      · rw [lastEvents_congr x hcallback hparallel, hsame] at d''
        have all := d.trans (d'.trans d'')
        rw [List.nil_append] at all
        rw [List.map_append, List.append_assoc (es.map deleted)]
        refine all.mono fun o ho => ?_
        simp only [List.mem_append] at ho ⊢
        tauto

/-! ## What is in a nesting -/

/-- One object has another: a parallel work its series, a series its tasks. -/
inductive Has (h : WorkHeap τ σ) : τ ⊕ σ → τ ⊕ σ → Prop
  | works {t : τ} {l : List σ} {x : σ} (works : h.allSeries t = some l) (mem : x ∈ l) : Has h (.inl t) (.inr x)
  | tasks {x : σ} {w : SeriesWork τ} {t : τ} (stands : (h.series x).Refines w)
      (mem : t ∈ (h.series x).first :: w.waiting) : Has h (.inr x) (.inl t)

/-- **All that hangs below an object**, with the object itself. -/
def Below (h : WorkHeap τ σ) : τ ⊕ σ → τ ⊕ σ → Prop := Relation.ReflTransGen (Has h)

def WorkPart.roots : WorkPart τ σ → List (τ ⊕ σ)
  | .task t => [.inl t]
  | .all l => l.map .inr
  | .series x => [.inr x]
  | .line ts => ts.map .inl

omit [DecidableEq σ] in
theorem Nesting.roots_mem {p : WorkPart τ σ} {es : List (τ ⊕ σ)} (nest : Nesting h p es) : ∀ o ∈ p.roots, o ∈ es := by
  induction nest with
  | leaf plain => exact fun o ho => ho
  | parallel works inner ih => exact fun o ho => List.mem_append_right _ ho
  | allNil => exact fun o ho => ho
  | allCons head tail ihHead ihTail =>
    intro o ho
    rcases List.mem_cons.1 ho with rfl | ho
    · exact List.mem_append_left _ (ihHead _ List.mem_cons_self)
    · exact List.mem_append_right _ (ihTail o ho)
  | series stands inner ih => exact fun o ho => List.mem_append_right _ ho
  | lineNil => exact fun o ho => ho
  | lineCons head tail ihHead ihTail =>
    intro o ho
    rcases List.mem_cons.1 ho with rfl | ho
    · exact List.mem_append_left _ (ihHead _ List.mem_cons_self)
    · exact List.mem_append_right _ (ihTail o ho)

omit [DecidableEq σ] in
/-- What an object of the nesting has is of the nesting. -/
theorem Nesting.closed {p : WorkPart τ σ} {es : List (τ ⊕ σ)} (nest : Nesting h p es) :
    ∀ o ∈ es, ∀ o', Has h o o' → o' ∈ es := by
  induction nest with
  | leaf plain =>
    intro o ho o' has
    rw [List.mem_singleton.1 ho] at has
    cases has with
    | works works mem =>
      rw [plain] at works
      cases works
  | parallel works inner ih =>
    intro o ho o' has
    rcases List.mem_append.1 ho with ho | ho
    · exact List.mem_append_left _ (ih o ho o' has)
    · rw [List.mem_singleton.1 ho] at has
      cases has with
      | works works' mem =>
        rw [works] at works'
        cases works'
        exact List.mem_append_left _ (inner.roots_mem _ (List.mem_map_of_mem mem))
  | allNil => exact fun o ho => absurd ho List.not_mem_nil
  | allCons head tail ihHead ihTail =>
    intro o ho o' has
    rcases List.mem_append.1 ho with ho | ho
    · exact List.mem_append_left _ (ihHead o ho o' has)
    · exact List.mem_append_right _ (ihTail o ho o' has)
  | series stands inner ih =>
    intro o ho o' has
    rcases List.mem_append.1 ho with ho | ho
    · exact List.mem_append_left _ (ih o ho o' has)
    · rw [List.mem_singleton.1 ho] at has
      cases has with
      | tasks stands' mem =>
        rw [stands'.waiting_eq stands] at mem
        exact List.mem_append_left _ (inner.roots_mem _ (List.mem_map_of_mem mem))
  | lineNil => exact fun o ho => absurd ho List.not_mem_nil
  | lineCons head tail ihHead ihTail =>
    intro o ho o' has
    rcases List.mem_append.1 ho with ho | ho
    · exact List.mem_append_left _ (ihHead o ho o' has)
    · exact List.mem_append_right _ (ihTail o ho o' has)

omit [DecidableEq σ] in
theorem Nesting.mem_below {p : WorkPart τ σ} {es : List (τ ⊕ σ)} (nest : Nesting h p es) :
    ∀ o ∈ es, ∃ r ∈ p.roots, Below h r o := by
  induction nest with
  | leaf plain => exact fun o ho => ⟨o, ho, .refl⟩
  | parallel works inner ih =>
    intro o ho
    rcases List.mem_append.1 ho with ho | ho
    · obtain ⟨r, hr, hbelow⟩ := ih o ho
      obtain ⟨x, hx, rfl⟩ := List.mem_map.1 hr
      exact ⟨_, List.mem_cons_self, .head (.works works hx) hbelow⟩
    · exact ⟨o, ho, .refl⟩
  | allNil => exact fun o ho => absurd ho List.not_mem_nil
  | allCons head tail ihHead ihTail =>
    intro o ho
    rcases List.mem_append.1 ho with ho | ho
    · obtain ⟨r, hr, hbelow⟩ := ihHead o ho
      exact ⟨r, List.mem_cons.2 (Or.inl (List.mem_singleton.1 hr)), hbelow⟩
    · obtain ⟨r, hr, hbelow⟩ := ihTail o ho
      exact ⟨r, List.mem_cons_of_mem _ hr, hbelow⟩
  | series stands inner ih =>
    intro o ho
    rcases List.mem_append.1 ho with ho | ho
    · obtain ⟨r, hr, hbelow⟩ := ih o ho
      obtain ⟨t, ht, rfl⟩ := List.mem_map.1 hr
      exact ⟨_, List.mem_cons_self, .head (.tasks stands ht) hbelow⟩
    · exact ⟨o, ho, .refl⟩
  | lineNil => exact fun o ho => absurd ho List.not_mem_nil
  | lineCons head tail ihHead ihTail =>
    intro o ho
    rcases List.mem_append.1 ho with ho | ho
    · obtain ⟨r, hr, hbelow⟩ := ihHead o ho
      exact ⟨r, List.mem_cons.2 (Or.inl (List.mem_singleton.1 hr)), hbelow⟩
    · obtain ⟨r, hr, hbelow⟩ := ihTail o ho
      exact ⟨r, List.mem_cons_of_mem _ hr, hbelow⟩

omit [DecidableEq σ] in
/-- **The list of a nesting has just the objects below its roots.** -/
theorem Nesting.mem_iff {p : WorkPart τ σ} {es : List (τ ⊕ σ)} (nest : Nesting h p es) (o : τ ⊕ σ) :
    o ∈ es ↔ ∃ r ∈ p.roots, Below h r o := by
  refine ⟨nest.mem_below o, fun ⟨r, hr, hbelow⟩ => ?_⟩
  induction hbelow with
  | refl => exact nest.roots_mem r hr
  | tail _ has ih => exact nest.closed _ (ih ⟨r, hr, by assumption⟩) _ has

/-! ## Dismissing and canceling -/

/-- **Dismissing and canceling delete everything once**: a root series or a root parallel work that is dismissed goes
with all that is below it, and no callback runs; and when a canceled series is popped all that is below its waiting tasks
goes, its own callback runs, and no task comes next. -/
theorem works_destroyed :
    (∀ (h : WorkHeap τ σ) (x : σ) (es : List (τ ⊕ σ)), Nesting h (.series x) es → es.Nodup →
      (h.series x).inParallel = false →
      (∀ o, o ∈ es ↔ Below h (.inr x) o) ∧
        ∃ h', Settles (fun k => h.dismiss k x) h' ∧ h'.log = h.log ++ es.map deleted) ∧
    (∀ (h : WorkHeap τ σ) (p : τ) (es : List (τ ⊕ σ)), Nesting h (.task p) es → es.Nodup → h.seriesOf p = none →
      (∀ o, o ∈ es ↔ Below h (.inl p) o) ∧
        ∃ h', Settles (fun k => h.parallelDismiss k p) h' ∧ h'.log = h.log ++ es.map deleted) ∧
    ∀ (h : WorkHeap τ σ) (x : σ) (w : SeriesWork τ) (es : List (τ ⊕ σ)), (h.series x).Refines w → w.canceled = true →
      Nesting h (.line w.waiting) es → es.Nodup → .inr x ∉ es →
      (∀ o, o ∈ es ↔ ∃ t ∈ w.waiting, Below h (.inl t) o) ∧
        ∃ h', Settles (fun k => h.pop k x) (none, h') ∧
          h'.log = h.log ++ es.map deleted ++ ((if (h.series x).callback then [.seriesCallback x] else []) ++
            if (h.series x).inParallel then [] else [.deletedSeries x]) := by
  refine ⟨fun h x es nest nodup inParallel => ?_, fun h p es nest nodup alone => ?_,
    fun h x w es stands canceled nest nodup hx => ?_⟩
  · obtain ⟨h', settles, d⟩ := nest.destroyed ⟨rfl, fun _ _ => rfl, fun _ _ => rfl⟩ nodup inParallel
    refine ⟨fun o => (nest.mem_iff o).trans (by simp [WorkPart.roots]), h', ?_, d.log⟩
    obtain ⟨n, hn⟩ := settles
    refine ⟨n, fun k hk => ?_⟩
    dsimp only
    rw [WorkHeap.dismiss, inParallel, if_neg (by decide)]
    exact hn k hk
  · obtain ⟨h', settles, d⟩ := nest.destroyed ⟨rfl, fun _ _ => rfl, fun _ _ => rfl⟩ nodup
    refine ⟨fun o => (nest.mem_iff o).trans (by simp [WorkPart.roots]), h', ?_, d.log⟩
    obtain ⟨n, hn⟩ := settles
    refine ⟨n, fun k hk => ?_⟩
    dsimp only
    rw [WorkHeap.parallelDismiss, alone, if_neg (by simp)]
    exact hn k hk
  · refine ⟨fun o => (nest.mem_iff o).trans (by simp [WorkPart.roots]), ?_⟩
    have hcan : (h.series x).canceled = true := stands.canceled.trans canceled
    cases hw : w.waiting with
    | nil =>
      rw [hw] at nest
      cases nest
      obtain ⟨h', hpop, d⟩ := popTask_last stands hw
      refine ⟨h', ⟨0, fun k _ => ?_⟩, ?_⟩
      · dsimp only
        rw [WorkHeap.pop, hpop, hcan]
        rfl
      · rw [d.log, List.map_nil, List.append_nil]
        rfl
    | cons t ts =>
      obtain ⟨h₁, w', hpop, d, stands', hw', hcallback, hparallel⟩ := popTask_next stands hw
      have u : Untouched h h₁ es := Untouched.after ⟨rfl, fun _ _ => rfl, fun _ _ => rfl⟩ d
        fun y hy hy' => hx (List.mem_singleton.1 hy' ▸ hy)
      obtain ⟨h', settles, d'⟩ := nest.destroyed u nodup t w' x (by rw [hw, hw']) stands' hx
      refine ⟨h', ?_, ?_⟩
      · obtain ⟨n, hn⟩ := settles.map fun h => (none, h)
        refine ⟨n, fun k hk => ?_⟩
        dsimp only
        rw [WorkHeap.pop, hpop, hcan]
        exact hn k hk
      · rw [d'.log, d.log, lastEvents_congr x hcallback hparallel, List.append_nil, List.append_assoc]
        rfl

/-- A series of a task, a parallel work and a last task; the parallel work has one series of two tasks. -/
def oneParallel (canceled : Bool) (own : Option Nat) : WorkHeap Nat Nat where
  series := fun x => if x = 0 then
      { (SeriesRing.new.pushBack 0).getD .new with
        last := some 3, canceled := canceled, first := 4, callback := true, inParallel := false }
    else { (SeriesRing.new.pushBack 2).getD .new with first := 1, callback := true, inParallel := true }
  allSeries := fun t => if t = 0 then some [1] else none
  parallelCallback := fun _ => true
  seriesOf := fun t => if t = 0 then own else some (if t = 3 ∨ t = 4 then 0 else 1)
  log := []

section

variable (canceled : Bool) (own : Option Nat)

theorem oneParallel_outer :
    ((oneParallel canceled own).series 0).Refines ⟨[0], some 3, canceled, false⟩ := by
  obtain ⟨r, hr, h⟩ := SeriesRing.pushBack_refines SeriesRing.new_refines 0
  unfold oneParallel
  rw [hr]
  exact ⟨h.line, h.room, rfl, rfl, h.finished⟩

theorem oneParallel_task : Nesting (oneParallel canceled own) (.task 0) [.inl 1, .inl 2, .inr 1, .inl 0] := by
  have inner : ((oneParallel canceled own).series 1).Refines { SeriesWork.new with queue := [2] } := by
    obtain ⟨r, hr, h⟩ := SeriesRing.pushBack_refines SeriesRing.new_refines 2
    unfold oneParallel
    rw [hr]
    exact h
  exact .parallel rfl (.allCons (.series inner (.lineCons (.leaf rfl) (.lineCons (.leaf rfl) .lineNil))) .allNil)

theorem oneParallel_waiting : Nesting (oneParallel canceled own) (.line [0, 3])
    [.inl 1, .inl 2, .inr 1, .inl 0, .inl 3] :=
  .lineCons (oneParallel_task canceled own) (.lineCons (.leaf rfl) .lineNil)

end

/-- The series dismissed; the parallel work dismissed that is in no series; the series popped, canceled. -/
theorem works_destroyed_one :
    (∃ h', Settles (fun k => (oneParallel false (some 0)).dismiss k 0) h' ∧ h'.log =
      [.deletedTask 4, .deletedTask 1, .deletedTask 2, .deletedSeries 1, .deletedTask 0, .deletedTask 3,
        .deletedSeries 0]) ∧
    (∃ h', Settles (fun k => (oneParallel false none).parallelDismiss k 0) h' ∧ h'.log =
      [.deletedTask 1, .deletedTask 2, .deletedSeries 1, .deletedTask 0]) ∧
    ∃ h', Settles (fun k => (oneParallel true (some 0)).pop k 0) (none, h') ∧ h'.log =
      [.deletedTask 1, .deletedTask 2, .deletedSeries 1, .deletedTask 0, .deletedTask 3, .seriesCallback 0,
        .deletedSeries 0] := by
  have nest := Nesting.series (oneParallel_outer false (some 0))
    (.lineCons (.leaf rfl) (oneParallel_waiting false (some 0)))
  refine ⟨(works_destroyed.1 _ 0 _ nest (by decide) rfl).2, ?_, ?_⟩
  · exact (works_destroyed.2.1 _ 0 _ (oneParallel_task false none) (by decide) rfl).2
  · exact (works_destroyed.2.2 _ 0 _ _ (oneParallel_outer true (some 0)) rfl (oneParallel_waiting true (some 0))
      (by decide) (by simp)).2

/-- `ParallelWork::done` deletes its series and itself; what is in the series is gone by then, and the series it is in
goes on. -/
theorem parallelDone_pops [DecidableEq τ] (h : WorkHeap τ σ) {p : τ} {x : σ} (own : h.seriesOf p = some x) :
    ∃ h' : WorkHeap τ σ, h'.series = h.series ∧ h'.log = h.log ++ ((if h.parallelCallback p then [.parallelCallback p] else []) ++
        ((h.allSeries p).getD []).map .deletedSeries) ++ [.deletedTask p] ∧
      ∀ r, Settles (fun k => h'.pop k x) r → Settles (fun k => h.parallelDone k p) r := by
  refine ⟨(h.completed p).happens [.deletedTask p], rfl, rfl, fun r settles => ?_⟩
  obtain ⟨n, hn⟩ := settles
  refine ⟨n + 2, fun k hk => ?_⟩
  have hdelete : WorkHeap.deleteTask k (h.completed p) p = some ((h.completed p).happens [.deletedTask p]) := by
    obtain ⟨k, rfl⟩ : ∃ j, k = j + 2 := ⟨k - 2, by omega⟩
    have hnone : (h.completed p).allSeries p = some [] := Function.update_self ..
    rw [WorkHeap.deleteTask, hnone]
    dsimp only
    rw [WorkHeap.dismissAll]
    rfl
  dsimp only
  rw [WorkHeap.parallelDone, own, Option.bind_some, hdelete, Option.bind_some]
  exact hn k (by omega)

end Tinywf
