import Tinywf.Lts
import Mathlib.Logic.Function.Basic
/-!
# Workflow — series and parallel works

A `SeriesWork` is a first task, a queue of further tasks and perhaps a last one; a task is a leaf, handed to some
framework that later completes it, or a `ParallelWork` over series.  `Flow` is a finite nesting of these: every task
stands in one series, every series but the root's in one parallel work, and nesting only goes down.

No thread owns a flow.  A thread's part of it is its call stack: frames of `dispatch`, of the loop of
`ParallelTask::dispatch` and of `subtask_done`, with `done` and `pop` under it.  A step runs the top frame of some thread
up to the next point where others may come in between; a leaf completes in a thread of its own, or inside its
`dispatch`.  `log` is what has happened.
-/
namespace Tinywf

variable {τ σ : Type*}

/-- **A finite nesting of works** over tasks `τ` and series `σ`: `subs t` is none for a leaf, and `owner x` the parallel
work that has series `x`. -/
structure Flow (τ σ : Type*) where
  subs : τ → Option (List σ)
  first : σ → τ
  queue : σ → List τ
  last : σ → Option τ
  seriesOf : τ → σ
  owner : σ → Option τ
  root : σ
  height : σ → Nat
  mem_tasks : ∀ x t, t ∈ first x :: (queue x ++ (last x).toList) ↔ seriesOf t = x
  nodup_tasks : ∀ x, (first x :: (queue x ++ (last x).toList)).Nodup
  mem_subs : ∀ p l, subs p = some l → ∀ x, x ∈ l ↔ owner x = some p
  owner_subs : ∀ x p, owner x = some p → (subs p).isSome
  nodup_subs : ∀ p l, subs p = some l → l.Nodup
  owner_root : ∀ x, owner x = none ↔ x = root
  height_lt : ∀ x p, owner x = some p → height x < height (seriesOf p)
  height_root : ∀ x, height x ≤ height root

/-- The tasks of a series, in order. -/
def Flow.tasks (f : Flow τ σ) (x : σ) : List τ := f.first x :: (f.queue x ++ (f.last x).toList)

/-! ## `SeriesWork` -/

structure SeriesWork (τ : Type*) where
  queue : List τ
  last : Option τ
  canceled : Bool
  finished : Bool

namespace SeriesWork

/-- `SeriesWork::pop_task`; with no task left the callback runs. -/
def popTask (w : SeriesWork τ) : Option τ × SeriesWork τ := match w.queue with
  | t :: q => (some t, { w with queue := q })
  | [] => match w.last with
    | some t => (some t, { w with last := none })
    | none => (none, { w with finished := true })

/-- `SeriesWork::pop`; a canceled series deletes the tasks left. -/
def pop (w : SeriesWork τ) : Option τ × SeriesWork τ :=
  if w.canceled then (none, { w with queue := [], last := none, finished := true }) else w.popTask

end SeriesWork

/-! ## Running a flow -/

/-- What a thread is to do next, with the local variables it needs. -/
inductive FlowFrame (τ σ : Type*) where
  /-- `t->dispatch()` -/
  | dispatch (t : τ)
  /-- the loop of `ParallelTask::dispatch`, at `subtasks[k]` -/
  | loop (p : τ) (k : Nat)
  /-- `subtask_done`, about to read `cur->parent` and to call `cur->done()` -/
  | done (t : τ)
  /-- in `done`, about to call `series->pop()` -/
  | pop (parent : Option τ) (x : σ)
  /-- `done` has returned the series' next task -/
  | next (parent : Option τ) (x : σ) (cur : Option τ)
deriving DecidableEq

/-- A task was dispatched; a leaf's `done` or a parallel work's callback ran; a series' callback ran. -/
inductive FlowEvent (τ σ : Type*) where
  | dispatched (t : τ)
  | finished (t : τ)
  | callback (x : σ)
deriving DecidableEq

structure FlowState (τ σ : Type*) where
  parent : τ → Option τ
  nleft : τ → Nat
  series : σ → SeriesWork τ
  /-- Leaves dispatched and not completed. -/
  pending : τ → Bool
  threads : List (List (FlowFrame τ σ))
  log : List (FlowEvent τ σ)

namespace FlowState

variable [DecidableEq τ] [DecidableEq σ]

def happens (s : FlowState τ σ) (e : FlowEvent τ σ) : FlowState τ σ := { s with log := s.log ++ [e] }

def setParent (s : FlowState τ σ) (t : τ) (p : Option τ) : FlowState τ σ :=
  { s with parent := Function.update s.parent t p }

def setNleft (s : FlowState τ σ) (p : τ) (n : Nat) : FlowState τ σ := { s with nleft := Function.update s.nleft p n }

/-- `dispatch()`: of a leaf, which may complete inside it, or of a `ParallelTask`. -/
def dispatch (f : Flow τ σ) (inside : Bool) (s : FlowState τ σ) (t : τ) : List (FlowFrame τ σ) × FlowState τ σ :=
  match f.subs t with
  | none =>
    if inside then ([.done t], s.happens (.dispatched t))
    else ([], { s.happens (.dispatched t) with pending := Function.update s.pending t true })
  | some l => (if l.length ≠ 0 then [.loop t 0] else [.done t], (s.happens (.dispatched t)).setNleft t l.length)

/-- `(*p)->parent = this; (*p)->dispatch(); ++p != end`. -/
def loop (f : Flow τ σ) (s : FlowState τ σ) (p : τ) (k : Nat) : List (FlowFrame τ σ) × FlowState τ σ :=
  match ((f.subs p).getD [])[k]? with
  | none => ([], s)
  | some x => (.dispatch (f.first x) :: (if k + 1 ≠ ((f.subs p).getD []).length then [.loop p (k + 1)] else []),
      s.setParent (f.first x) (some p))

/-- `series->pop()` in `done`. -/
def pop (s : FlowState τ σ) (parent : Option τ) (x : σ) : List (FlowFrame τ σ) × FlowState τ σ :=
  match (s.series x).pop with
  | (some t, w) => ([.next parent x (some t)], { s with series := Function.update s.series x w })
  | (none, w) => ([.next parent x none], { s.happens (.callback x) with series := Function.update s.series x w })

/-- What `subtask_done` does with the task `done` returned. -/
def next (s : FlowState τ σ) (parent : Option τ) : Option τ → List (FlowFrame τ σ) × FlowState τ σ
  | some t => ([.dispatch t], s.setParent t parent)
  | none => match parent with
    | none => ([], s)
    | some p => (if s.nleft p - 1 = 0 then [.done p] else [], s.setNleft p (s.nleft p - 1))

/-- One frame: the frames it leaves in its place, and the state. -/
def run (f : Flow τ σ) (inside : Bool) (s : FlowState τ σ) : FlowFrame τ σ → List (FlowFrame τ σ) × FlowState τ σ
  | .dispatch t => s.dispatch f inside t
  | .loop p k => s.loop f p k
  | .done t => ([.pop (s.parent t) (f.seriesOf t)], s.happens (.finished t))
  | .pop parent x => s.pop parent x
  | .next parent _ cur => s.next parent cur

end FlowState

/-- `SeriesWork::start` of the root series; `nleft` is not initialised. -/
def Flow.start (f : Flow τ σ) (nleft : τ → Nat) : FlowState τ σ where
  parent := fun _ => none
  nleft := nleft
  series := fun x => ⟨f.queue x, f.last x, false, false⟩
  pending := fun _ => false
  threads := [[.dispatch (f.first f.root)]]
  log := []

/-- A thread runs its top frame; a dispatched leaf completes. -/
inductive FlowStep [DecidableEq τ] [DecidableEq σ] (f : Flow τ σ) : FlowState τ σ → Option τ → FlowState τ σ → Prop
  | call {s : FlowState τ σ} (inside : Bool) (l₁ l₂ : List (List (FlowFrame τ σ))) (fr : FlowFrame τ σ)
      (fs : List (FlowFrame τ σ)) (top : s.threads = l₁ ++ (fr :: fs) :: l₂) :
      FlowStep f s none { (s.run f inside fr).2 with threads := l₁ ++ ((s.run f inside fr).1 ++ fs) :: l₂ }
  | complete {s : FlowState τ σ} (t : τ) (pending : s.pending t = true) :
      FlowStep f s (some t)
        { s with pending := Function.update s.pending t false, threads := s.threads ++ [[.done t]] }

end Tinywf
