import Tinywf.BinHeap
import Mathlib.Data.Fintype.Card
/-!
# CommScheduler — targets, groups and the threads that wait for them

The objects of CommScheduler.cc: a target takes up to `max_load` loads, a group keeps its targets in a heap by load.
`Sched` is all of them, over any types `τ` of targets and `γ` of groups, and the functions below are the sections the
code runs under a mutex: each is one step.  A section that calls `pthread_cond_signal` says on which object's condition.

`tg_heap` is a function of the index: what it holds from `heap_size` on is whatever was in the buffer.  The counters
are naturals; `heap_size` being an `int`, a group has too few members for the sums of their loads to wrap.
-/
namespace Tinywf

open BinHeap

variable {τ γ : Type}

inductive Errno where
  | EAGAIN | ETIMEDOUT | EEXIST | EINVAL | EBUSY | ENOENT | ENOMEM
  deriving Repr, DecidableEq

structure CommSchedTarget (γ : Type) where
  maxLoad : Nat
  curLoad : Nat
  waitCnt : Nat
  index : Nat
  group : Option γ

structure CommSchedGroup (τ : Type) where
  tgHeap : Nat → τ
  heapSize : Nat
  heapBufSize : Nat
  maxLoad : Nat
  curLoad : Nat
  waitCnt : Nat

/-- What `acquire` is called on. -/
inductive CommSchedObject (τ γ : Type) where
  | target (t : τ)
  | group (g : γ)
  deriving DecidableEq

structure Sched (τ γ : Type) where
  target : τ → CommSchedTarget γ
  group : γ → CommSchedGroup τ

/-- How a section of `acquire` ends: with a target, in `pthread_cond_wait`, or with an error. -/
inductive Acquired (τ : Type) where
  | got (t : τ)
  | wait
  | fail (e : Errno)
  deriving DecidableEq

namespace Sched

variable (s : Sched τ γ)

/-! ## The heap -/

/-- `target_cmp`, the products those of `size_t`. -/
def targetCmp (target1 target2 : τ) : Int :=
  let load1 := (s.target target1).curLoad * (s.target target2).maxLoad % 2 ^ 64
  let load2 := (s.target target2).curLoad * (s.target target1).maxLoad % 2 ^ 64
  if load1 < load2 then -1
  else if load1 > load2 then 1
  else 0

/-- A group's heap: the array is the group's, the index of a target the target's. -/
def slots (g : γ) : Slots τ := { slot := (s.group g).tgHeap, pos := fun t => (s.target t).index }

variable [DecidableEq τ] [DecidableEq γ]

def setTarget (t : τ) (x : CommSchedTarget γ) : Sched τ γ := { s with target := Function.update s.target t x }

def setGroup (g : γ) (x : CommSchedGroup τ) : Sched τ γ := { s with group := Function.update s.group g x }

def setSlots (g : γ) (h : Slots τ) : Sched τ γ :=
  { target := fun t => { s.target t with index := h.pos t }
    group := Function.update s.group g { s.group g with tgHeap := h.slot } }

def heapAdjust (g : γ) (index : Nat) (swapOnEqual : Int) : Sched τ γ :=
  let target := (s.group g).tgHeap index
  s.setSlots g (siftUp (fun target parent => s.targetCmp target parent < if swapOnEqual = 0 then 0 else 1)
    target index index (s.slots g))

def heapify (g : γ) (top : Nat) : Sched τ γ :=
  let target := (s.group g).tgHeap top
  let size := (s.group g).heapSize
  s.setSlots g (siftDown (fun target1 target2 => s.targetCmp target1 target2 < 0) target size size top (s.slots g))

/-- `grown` is whether `realloc`, if it comes to that, finds the memory. -/
def heapInsert (g : γ) (t : τ) (grown : Bool) : Option (Sched τ γ) :=
  let full : Bool := (s.group g).heapSize = (s.group g).heapBufSize
  if full && !grown then none
  else
    let size := (s.group g).heapSize
    let s1 := if full then s.setGroup g { s.group g with heapBufSize := 2 * (s.group g).heapBufSize } else s
    let s2 := (s1.setSlots g ((s1.slots g).put size t)).heapAdjust g size 0
    some (s2.setGroup g { s2.group g with heapSize := size + 1 })

def heapRemove (g : γ) (index : Nat) : Sched τ γ :=
  let size := (s.group g).heapSize - 1
  let s1 := s.setGroup g { s.group g with heapSize := size }
  if index ≠ size then
    let target := (s.group g).tgHeap size
    let s2 := (s1.setSlots g ((s1.slots g).put index target)).heapAdjust g index 0
    s2.heapify g (s2.target target).index
  else s1

/-! ## The sections -/

def add (g : γ) (t : τ) (grown : Bool) : Sched τ γ × Option (CommSchedObject τ γ) × Except Errno Unit :=
  if (s.target t).group = none ∧ (s.target t).waitCnt = 0 then
    match s.heapInsert g t grown with
    | some s1 =>
      let s2 := s1.setTarget t { s1.target t with group := some g }
      let s3 := s2.setGroup g { s2.group g with
        maxLoad := (s2.group g).maxLoad + (s2.target t).maxLoad
        curLoad := (s2.group g).curLoad + (s2.target t).curLoad }
      let free : Bool := 0 < (s3.group g).waitCnt ∧ (s3.group g).curLoad < (s3.group g).maxLoad
      (s3, if free then some (.group g) else none, .ok ())
    | none => (s, none, .error .ENOMEM)
  else if (s.target t).group = some g then (s, none, .error .EEXIST)
  else if (s.target t).group ≠ none then (s, none, .error .EINVAL)
  else (s, none, .error .EBUSY)

def remove (g : γ) (t : τ) : Sched τ γ × Except Errno Unit :=
  if (s.target t).group = some g ∧ (s.target t).waitCnt = 0 then
    let s1 := s.heapRemove g (s.target t).index
    let s2 := s1.setGroup g { s1.group g with
      maxLoad := (s1.group g).maxLoad - (s1.target t).maxLoad
      curLoad := (s1.group g).curLoad - (s1.target t).curLoad }
    (s2.setTarget t { s2.target t with group := none }, .ok ())
  else if (s.target t).group ≠ some g then (s, .error .ENOENT)
  else (s, .error .EBUSY)

/-- `CommSchedTarget::release`, with the condition it signals. -/
def release (t : τ) (keepAlive : Int) : Sched τ γ × Option (CommSchedObject τ γ) :=
  let s1 := s.setTarget t { s.target t with curLoad := (s.target t).curLoad - 1 }
  let own : Option (CommSchedObject τ γ) := if 0 < (s.target t).waitCnt then some (.target t) else none
  match (s.target t).group with
  | some g =>
    let s2 := s1.setGroup g { s1.group g with curLoad := (s1.group g).curLoad - 1 }
    let signal := if (s.target t).waitCnt = 0 ∧ 0 < (s.group g).waitCnt then some (.group g) else own
    (s2.heapAdjust g (s2.target t).index keepAlive, signal)
  | none => (s1, own)

/-! ## Acquiring -/

def maxLoad : CommSchedObject τ γ → Nat
  | .target t => (s.target t).maxLoad
  | .group g => (s.group g).maxLoad

def curLoad : CommSchedObject τ γ → Nat
  | .target t => (s.target t).curLoad
  | .group g => (s.group g).curLoad

def waitCnt : CommSchedObject τ γ → Nat
  | .target t => (s.target t).waitCnt
  | .group g => (s.group g).waitCnt

def setWaitCnt (n : Nat) : CommSchedObject τ γ → Sched τ γ
  | .target t => s.setTarget t { s.target t with waitCnt := n }
  | .group g => s.setGroup g { s.group g with waitCnt := n }

/-- The target a load is put on, and the load put. -/
def takeTarget (t : τ) : Sched τ γ :=
  let s1 := s.setTarget t { s.target t with curLoad := (s.target t).curLoad + 1 }
  match (s.target t).group with
  | some g => (s1.setGroup g { s1.group g with curLoad := (s1.group g).curLoad + 1 }).heapify g (s.target t).index
  | none => s1

def takeGroup (g : γ) : Sched τ γ :=
  let t := (s.group g).tgHeap 0
  let s1 := s.setTarget t { s.target t with curLoad := (s.target t).curLoad + 1 }
  (s1.setGroup g { s1.group g with curLoad := (s1.group g).curLoad + 1 }).heapify g 0

def take : CommSchedObject τ γ → Sched τ γ × Acquired τ
  | .target t => (s.takeTarget t, .got t)
  | .group g => (s.takeGroup g, .got ((s.group g).tgHeap 0))

/-- `acquire`, up to where it returns or waits. -/
def acquire (o : CommSchedObject τ γ) (waitTimeout : Int) : Sched τ γ × Acquired τ :=
  if s.maxLoad o ≤ s.curLoad o then
    if waitTimeout ≠ 0 then (s.setWaitCnt (s.waitCnt o + 1) o, .wait)
    else (s, .fail .EAGAIN)
  else s.take o

/-- `acquire`, from where `pthread_cond_wait` came back with `ret` to where it returns or waits again. -/
def resume (o : CommSchedObject τ γ) (ret : Option Errno) : Sched τ γ × Acquired τ :=
  let s1 := s.setWaitCnt (s.waitCnt o - 1) o
  if s1.maxLoad o ≤ s1.curLoad o then
    match ret with
    | none => (s1.setWaitCnt (s1.waitCnt o + 1) o, .wait)
    | some e => (s1, .fail e)
  else s1.take o

end Sched

def CommSchedTarget.acquire [DecidableEq τ] [DecidableEq γ] (s : Sched τ γ) (t : τ) (waitTimeout : Int) :
    Sched τ γ × Acquired τ :=
  s.acquire (.target t) waitTimeout

def CommSchedGroup.acquire [DecidableEq τ] [DecidableEq γ] (s : Sched τ γ) (g : γ) (waitTimeout : Int) :
    Sched τ γ × Acquired τ :=
  s.acquire (.group g) waitTimeout

/-- `CommSchedTarget::init` accepts it: `maxConnections` is not zero. -/
def CommSchedTarget.init (maxConnections index : Nat) : Except Errno (CommSchedTarget γ) :=
  if maxConnections = 0 then .error .EINVAL
  else .ok { maxLoad := maxConnections, curLoad := 0, waitCnt := 0, index := index, group := none }

def COMMGROUP_INIT_SIZE : Nat := 4

def CommSchedGroup.init (tgHeap : Nat → τ) : CommSchedGroup τ :=
  { tgHeap := tgHeap, heapSize := 0, heapBufSize := COMMGROUP_INIT_SIZE, maxLoad := 0, curLoad := 0, waitCnt := 0 }

end Tinywf
