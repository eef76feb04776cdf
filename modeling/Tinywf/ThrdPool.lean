import Tinywf.Msgqueue
import Mathlib.Data.Finset.Card
/-!
# ThrdPool — the threads of a pool, and the one that destroys it

The pool of thrdpool.c, with the threads in `__thrdpool_routine`, `thrdpool_increase` and `thrdpool_destroy`.  The queue
is what Msgqueue shows it to be, a `fifo`.  A step is what a thread does under `pool->mutex` up to a write that another
thread reads without it: the workers read `terminate` and `nthreads` so, and `thrdpool_increase` writes `nthreads` only
after the thread it created may have run.

A task is the address of its entry; while it runs it may make any calls, and it may end at any time it is in none.  One
thread destroys the pool, when no thread is in `thrdpool_increase`.  `__zero_tid` is `none`.
-/
namespace Tinywf

open Lts

/-- Where a thread is in `__thrdpool_routine`. -/
inductive PoolWork (θ : Type) where
  | outside
  | loop
  | getting
  | running (task : Int)
  | returned
  | exitLock
  | exitUnlock (tid : Option θ)
  | joining (tid : Option θ)
  | finished
  deriving DecidableEq

/-- Where a thread is in `thrdpool_increase`. -/
inductive Increase (θ : Type) where
  | idle
  | locking
  | created (tid : θ)
  deriving DecidableEq

/-- Where the thread is that destroys the pool: in `__thrdpool_terminate` up to `joining`. -/
inductive Destroy (θ : Type) where
  | locking
  | nonblock
  | leave
  | check
  | waiting
  | woken
  | unlocked
  | joining (tid : θ)
  | draining
  | drained
  | done
  deriving DecidableEq

structure ThrdPool (θ : Type) where
  queue : List Int × Bool
  nthreads : Nat
  tid : Option θ
  mutex : Option θ
  terminate : Bool
  work : θ → PoolWork θ
  increase : θ → Increase θ
  destroy : Option (θ × Destroy θ)
  detached : θ → Bool
  /-- How often the thread was joined. -/
  joined : θ → Nat
  /-- How often `pool` was freed. -/
  freed : Nat
  /-- The tasks put before the last get of `thrdpool_destroy`. -/
  scheduled : List Int
  /-- The tasks that the workers took, and ran. -/
  ran : List Int
  /-- The tasks that `thrdpool_destroy` took, and passed to `pending` if it was given one. -/
  pended : List Int

/-- How far the thread is. -/
@[simp] def Destroy.rank {θ : Type} : Destroy θ → Nat
  | locking => 1
  | nonblock => 2
  | leave => 3
  | check => 4
  | waiting => 4
  | woken => 4
  | unlocked => 5
  | joining _ => 6
  | draining => 7
  | drained => 8
  | done => 9

inductive PoolAction (θ : Type) where
  | schedule
  | increase (a : θ)
  | call (a : θ)
  | destroy (a : θ)
  | spurious
  | work (a : θ)

namespace ThrdPool

variable {θ : Type}

/-- How far the destruction is. -/
def destroyed : Option (θ × Destroy θ) → Nat
  | none => 0
  | some (_, d) => d.rank

@[simp] theorem destroyed_none : destroyed (none : Option (θ × Destroy θ)) = 0 := rfl

@[simp] theorem destroyed_some (a : θ) (d : Destroy θ) : destroyed (some (a, d)) = d.rank := rfl

def rank (s : ThrdPool θ) : Nat := destroyed s.destroy

/-- `thrdpool_in_pool`: its key is set in the threads of the pool. -/
def inPool (s : ThrdPool θ) (a : θ) : Bool :=
  match s.work a with
  | .outside => false
  | _ => true

/-- Thread `a` can make a call: it is none of the pool's, or runs a task. -/
def Calls (s : ThrdPool θ) (a : θ) : Prop :=
  s.increase a = .idle ∧ (s.work a = .outside ∨ ∃ task, s.work a = .running task)

/-- `pthread_cond_signal(pool->terminate)`: only the thread that destroys the pool waits there. -/
def signalTerm : Option (θ × Destroy θ) → Option (θ × Destroy θ)
  | some (a, .waiting) => some (a, .woken)
  | d => d

variable [DecidableEq θ]

def goWork (s : ThrdPool θ) (a : θ) (w : PoolWork θ) : ThrdPool θ := { s with work := Function.update s.work a w }

def goIncrease (s : ThrdPool θ) (a : θ) (i : Increase θ) : ThrdPool θ :=
  { s with increase := Function.update s.increase a i }

def goDestroy (s : ThrdPool θ) (a : θ) (d : Destroy θ) : ThrdPool θ := { s with destroy := some (a, d) }

omit [DecidableEq θ] in
@[simp] theorem goDestroy_destroy (s : ThrdPool θ) (a : θ) (d : Destroy θ) : (s.goDestroy a d).destroy = some (a, d) := rfl

/-- `pthread_join`. -/
def join (s : ThrdPool θ) (tid : θ) : ThrdPool θ :=
  { s with joined := Function.update s.joined tid (s.joined tid + 1) }

end ThrdPool

open ThrdPool

section
variable {θ : Type} [DecidableEq θ]

inductive PoolStep : ThrdPool θ → PoolAction θ → ThrdPool θ → Prop where
  /-- A task put after the last get of `thrdpool_destroy` is nobody's. -/
  | schedule {s : ThrdPool θ} (task : Int) (q : List Int × Bool) (alive : s.rank < 9)
      (put : fifo s.queue (.put task) = some q) :
      PoolStep s .schedule
        { s with queue := q, scheduled := if s.rank < 8 then s.scheduled ++ [task] else s.scheduled }
  | increaseCall {s : ThrdPool θ} {a : θ} (calls : s.Calls a) (before : s.destroy = none) :
      PoolStep s (.increase a) (s.goIncrease a .locking)
  | increaseFail {s : ThrdPool θ} {a : θ} (at_lock : s.increase a = .locking) (lock : s.mutex = none) :
      PoolStep s (.increase a) (s.goIncrease a .idle)
  | increaseCreate {s : ThrdPool θ} {a b : θ} (at_lock : s.increase a = .locking) (lock : s.mutex = none)
      (out : s.work b = .outside) (new : s.increase b = .idle) :
      PoolStep s (.increase a) { (s.goIncrease a (.created b)).goWork b .loop with mutex := some a }
  | increaseCount {s : ThrdPool θ} {a b : θ} (created : s.increase a = .created b) :
      PoolStep s (.increase a) { s.goIncrease a .idle with mutex := none, nthreads := s.nthreads + 1 }
  | destroyCall {s : ThrdPool θ} {a : θ} (calls : s.Calls a) (before : s.destroy = none)
      (quiet : ∀ b, s.increase b = .idle) : PoolStep s (.call a) (s.goDestroy a .locking)
  | setNonblock {s : ThrdPool θ} {a : θ} (q : List Int × Bool) (at_lock : s.destroy = some (a, .locking))
      (lock : s.mutex = none) (set : fifo s.queue (.mode true) = some q) :
      PoolStep s (.destroy a) { s.goDestroy a .nonblock with mutex := some a, queue := q }
  | setTerminate {s : ThrdPool θ} {a : θ} (at_set : s.destroy = some (a, .nonblock)) :
      PoolStep s (.destroy a) { s.goDestroy a .leave with terminate := true }
  | leave {s : ThrdPool θ} {a : θ} (at_leave : s.destroy = some (a, .leave)) :
      PoolStep s (.destroy a) { s.goDestroy a .check with
        detached := if s.inPool a then Function.update s.detached a true else s.detached
        nthreads := if s.inPool a then s.nthreads - 1 else s.nthreads }
  | wait {s : ThrdPool θ} {a : θ} (at_check : s.destroy = some (a, .check)) (more : 0 < s.nthreads) :
      PoolStep s (.destroy a) { s.goDestroy a .waiting with mutex := none }
  | spurious {s : ThrdPool θ} {a : θ} (waits : s.destroy = some (a, .waiting)) :
      PoolStep s .spurious (s.goDestroy a .woken)
  | relock {s : ThrdPool θ} {a : θ} (woken : s.destroy = some (a, .woken)) (lock : s.mutex = none) :
      PoolStep s (.destroy a) { s.goDestroy a .check with mutex := some a }
  | unlock {s : ThrdPool θ} {a : θ} (at_check : s.destroy = some (a, .check)) (nobody : s.nthreads = 0) :
      PoolStep s (.destroy a) { s.goDestroy a .unlocked with mutex := none }
  | noTid {s : ThrdPool θ} {a : θ} (unlocked : s.destroy = some (a, .unlocked)) (none : s.tid = none) :
      PoolStep s (.destroy a) (s.goDestroy a .draining)
  | joinTid {s : ThrdPool θ} {a t : θ} (unlocked : s.destroy = some (a, .unlocked)) (last : s.tid = some t) :
      PoolStep s (.destroy a) (s.goDestroy a (.joining t))
  | joinLast {s : ThrdPool θ} {a t : θ} (joining : s.destroy = some (a, .joining t)) (ended : s.work t = .finished) :
      PoolStep s (.destroy a) ((s.goDestroy a .draining).join t)
  | pend {s : ThrdPool θ} {a : θ} (task : Int) (q : List Int × Bool) (draining : s.destroy = some (a, .draining))
      (get : fifo s.queue (.get task) = some q) :
      PoolStep s (.destroy a) { s with queue := q, pended := s.pended ++ [task] }
  | drained {s : ThrdPool θ} {a : θ} (q : List Int × Bool) (draining : s.destroy = some (a, .draining))
      (get : fifo s.queue .empty = some q) : PoolStep s (.destroy a) { s.goDestroy a .drained with queue := q }
  | free {s : ThrdPool θ} {a : θ} (drained : s.destroy = some (a, .drained)) :
      PoolStep s (.destroy a) { s.goDestroy a .done with freed := if s.inPool a then s.freed else s.freed + 1 }
  | again {s : ThrdPool θ} {a : θ} (at_loop : s.work a = .loop) (on : s.terminate = false) :
      PoolStep s (.work a) (s.goWork a .getting)
  | stop {s : ThrdPool θ} {a : θ} (at_loop : s.work a = .loop) (off : s.terminate = true) :
      PoolStep s (.work a) (s.goWork a .exitLock)
  | run {s : ThrdPool θ} {a : θ} (task : Int) (q : List Int × Bool) (getting : s.work a = .getting)
      (get : fifo s.queue (.get task) = some q) :
      PoolStep s (.work a) { s.goWork a (.running task) with queue := q, ran := s.ran ++ [task] }
  | noTask {s : ThrdPool θ} {a : θ} (q : List Int × Bool) (getting : s.work a = .getting)
      (get : fifo s.queue .empty = some q) : PoolStep s (.work a) { s.goWork a .exitLock with queue := q }
  | taskReturns {s : ThrdPool θ} {a : θ} (task : Int) (running : s.work a = .running task) (idle : s.increase a = .idle)
      (back : ∀ d, s.destroy = some (a, d) → d = .done) : PoolStep s (.work a) (s.goWork a .returned)
  | freePool {s : ThrdPool θ} {a : θ} (returned : s.work a = .returned) (nobody : s.nthreads = 0) :
      PoolStep s (.work a) { s.goWork a .finished with freed := s.freed + 1 }
  | goOn {s : ThrdPool θ} {a : θ} (returned : s.work a = .returned) (more : s.nthreads ≠ 0) :
      PoolStep s (.work a) (s.goWork a .loop)
  | exit {s : ThrdPool θ} {a : θ} (at_lock : s.work a = .exitLock) (lock : s.mutex = none) :
      PoolStep s (.work a) { s.goWork a (.exitUnlock s.tid) with
        mutex := some a
        tid := some a
        nthreads := s.nthreads - 1
        destroy := if s.nthreads - 1 = 0 then signalTerm s.destroy else s.destroy }
  | exitUnlock {s : ThrdPool θ} {a : θ} (t : Option θ) (holds : s.work a = .exitUnlock t) :
      PoolStep s (.work a) { s.goWork a (.joining t) with mutex := none }
  | joinNone {s : ThrdPool θ} {a : θ} (joining : s.work a = .joining none) : PoolStep s (.work a) (s.goWork a .finished)
  | joinPrev {s : ThrdPool θ} {a t : θ} (joining : s.work a = .joining (some t)) (ended : s.work t = .finished) :
      PoolStep s (.work a) ((s.goWork a .finished).join t)

end

/-- A pool that `thrdpool_create` has made: it counts its threads, and no call has been made. -/
structure ThrdPool.Init {θ : Type} (s : ThrdPool θ) : Prop where
  queue : s.queue = ([], false)
  nthreads : ∃ threads : Finset θ, s.nthreads = threads.card ∧
    ∀ a, s.work a = .outside ∧ a ∉ threads ∨ s.work a = .loop ∧ a ∈ threads
  tid : s.tid = none
  mutex : s.mutex = none
  terminate : s.terminate = false
  increase : ∀ a, s.increase a = .idle
  destroy : s.destroy = none
  detached : ∀ a, s.detached a = false
  joined : ∀ a, s.joined a = 0
  freed : s.freed = 0
  scheduled : s.scheduled = []
  ran : s.ran = []
  pended : s.pended = []

end Tinywf
