import Tinywf.TimeoQueue
/-!
# Poller — registrations, their timers and their results

A node is what `poller_add`, `poller_mod` or `poller_add_timer` made; `live` are those not taken out again.  What only a
system call decides is an argument of the operations: the clock, whether `malloc` gave memory, whether `epoll_ctl` went
well.  `epoll_ctl` with `EPOLL_CTL_DEL` leaves the descriptor out of the set either way.  `calls` is what went to the
poller's callback as the last result of a node.
-/
namespace Tinywf

open InorderTree

/-- `PD_OP_*`. -/
inductive PdOp where
  | read | write | listen | connect | sslAccept | sslConnect | sslShutdown | event | notify | timer | other
deriving DecidableEq

/-- `PR_ST_*`, but for `PR_ST_SUCCESS`, which ends nothing. -/
inductive PrSt where
  | finished | error | deleted | modified | stopped
deriving DecidableEq

/-- `errno` behind a -1: set here, or by `malloc` or `epoll_ctl`, or left as it was. -/
inductive PollerErrno where
  | badf | mfile | inval | noent | ofCall | unset
deriving DecidableEq

def ETIMEDOUT : Int := 110

def EPOLLIN : Nat := 0x001

def EPOLLOUT : Nat := 0x004

def EPOLLET : Nat := 0x80000000

structure PollerData where
  operation : PdOp
  fd : Int
  /-- `message` is not null. -/
  message : Bool
deriving DecidableEq

/-- `__poller_data_get_event`: the events, and whether a result node is needed. -/
def PollerData.getEvent (data : PollerData) : Option (Nat × Bool) := match data.operation with
  | .read => some (EPOLLIN ||| EPOLLET, data.message)
  | .write => some (EPOLLOUT ||| EPOLLET, false)
  | .listen => some (EPOLLIN, true)
  | .connect => some (EPOLLOUT ||| EPOLLET, false)
  | .sslAccept => some (EPOLLIN ||| EPOLLET, false)
  | .sslConnect => some (EPOLLOUT ||| EPOLLET, false)
  | .sslShutdown => some (EPOLLOUT ||| EPOLLET, false)
  | .event => some (EPOLLIN ||| EPOLLET, true)
  | .notify => some (EPOLLIN ||| EPOLLET, true)
  | .timer => none
  | .other => none

/-- The fields of a node that the timers do not use. -/
structure PollerNode where
  data : PollerData
  event : Nat
  removed : Bool
  /-- `res` is not null. -/
  res : Bool
  /-- Not set before the node's last result. -/
  state : Option PrSt
  error : Int
deriving DecidableEq

/-- A node as it is given to the callback. -/
structure PollerResult where
  node : NodeId
  state : Option PrSt
  error : Int
deriving DecidableEq

inductive Timerfd where
  | disarmed | armed (t : Timespec) | fired
deriving DecidableEq

structure Poller extends TimeoQueue where
  maxOpenFiles : Nat
  pipeRd : Nat
  pipeWr : Nat
  stopped : Bool
  nodes : Nat → Option NodeId
  node : NodeId → PollerNode
  /-- The events and the pointer a descriptor is registered with. -/
  epoll : Nat → Option (Nat × NodeId)
  timerfd : Timerfd
  pipe : List (Option NodeId)
  calls : List PollerResult
  live : List NodeId
  /-- The node made next. -/
  fresh : NodeId

/-- What the system calls of an operation answer. -/
structure SysAnswers where
  clock : Timespec
  mallocRes : Bool
  mallocNode : Bool
  epollCtl : Bool

namespace Poller

variable (B : Balance NodeId)

/-- `__poller_create`. -/
def create (maxOpenFiles pipeRd pipeWr : Nat) : Poller where
  timeout := fun _ => ⟨0, 0, by decide⟩
  inRbtree := fun _ => false
  timeoTree := .nil
  treeFirst := none
  treeLast := none
  timeoList := []
  noTimeoList := []
  maxOpenFiles := maxOpenFiles
  pipeRd := pipeRd
  pipeWr := pipeWr
  stopped := true
  nodes := fun _ => none
  node := fun _ => ⟨⟨.other, -1, false⟩, 0, false, false, none, 0⟩
  epoll := fun _ => none
  timerfd := .disarmed
  pipe := []
  calls := []
  live := []
  fresh := 0

/-- `__poller_set_timerfd`; a time of zero disarms. -/
def setTimerfd (t : Timespec) (s : Poller) : Poller :=
  { s with timerfd := if t.sec = 0 ∧ t.nsec = 0 then .disarmed else .armed t }

/-- `__poller_insert_node`. -/
def insertNode (n : NodeId) (s : Poller) : Poller :=
  let r := s.toTimeoQueue.insertNode B n
  if r.2 then { s with toTimeoQueue := r.1 }.setTimerfd (r.1.timeout n) else { s with toTimeoQueue := r.1 }

/-- A node's place by its timeout. -/
def insertTimeo (timeout : Int) (n : NodeId) (s : Poller) : Poller :=
  if 0 ≤ timeout then s.insertNode B n else { s with toTimeoQueue := s.toTimeoQueue.addNoTimeo n }

/-- A new node, its timeout set if there is one; no one knows of it before it is put into its place. -/
def newNode (data : PollerData) (event : Nat) (res : Bool) (timeout : Option Timespec) (s : Poller) : Poller :=
  { s with
    timeout := Function.update s.timeout s.fresh (timeout.getD (s.timeout s.fresh))
    inRbtree := Function.update s.inRbtree s.fresh false
    node := Function.update s.node s.fresh ⟨data, event, false, res, none, 0⟩
    live := s.fresh :: s.live
    fresh := s.fresh + 1 }

/-- `__poller_add_fd` and `__poller_mod_fd` that went well. -/
def setFd (fd : Nat) (event : Nat) (n : NodeId) (s : Poller) : Poller :=
  { s with epoll := Function.update s.epoll fd (some (event, n)) }

/-- A node out of its place. -/
def unlink (n : NodeId) (s : Poller) : Poller := { s with toTimeoQueue := s.toTimeoQueue.unlink B n }

def forget (n : NodeId) (s : Poller) : Poller := { s with live := s.live.erase n }

/-- A node's descriptor is given up. -/
def leave (n : NodeId) (s : Poller) : Poller :=
  let fd := (s.node n).data.fd
  if 0 ≤ fd then
    { s with
      nodes := Function.update s.nodes fd.toNat none
      epoll := Function.update s.epoll fd.toNat none }.forget n
  else s.forget n

def setResult (n : NodeId) (state : PrSt) (error : Int) (s : Poller) : Poller :=
  { s with node := Function.update s.node n { s.node n with state := some state, error := error } }

/-- `poller->cb`, for a node that has ended. -/
def callback (n : NodeId) (s : Poller) : Poller :=
  { s with calls := s.calls ++ [⟨n, (s.node n).state, (s.node n).error⟩] }

/-- A node that `poller_del` or `poller_mod` took out: it is called back here once the poller is stopped, or else goes
through the pipe. -/
def post (n : NodeId) (state : PrSt) (s : Poller) : Poller :=
  let s := s.setResult n state 0
  if s.stopped then s.callback n
  else { s with node := Function.update s.node n { s.node n with removed := true }, pipe := s.pipe ++ [some n] }

/-- The checks `poller_add` and `poller_mod` begin with: the events, or the `errno`. -/
def check (ans : SysAnswers) (data : PollerData) (s : Poller) : Except PollerErrno (Nat × Bool) :=
  if data.fd < 0 then .error .badf
  else if s.maxOpenFiles ≤ data.fd.toNat then .error .mfile
  else match data.getEvent with
    | none => .error .inval
    | some (event, needRes) =>
      if needRes && !ans.mallocRes then .error .ofCall
      else if !ans.mallocNode then .error .ofCall
      else .ok (event, needRes)

/-- `poller_add`. -/
def add (ans : SysAnswers) (data : PollerData) (timeout : Int) (s : Poller) : Except PollerErrno Unit × Poller :=
  match s.check ans data with
  | .error e => (.error e, s)
  | .ok (event, needRes) =>
    if (s.nodes data.fd.toNat).isSome then (.error .unset, s)
    else if !ans.epollCtl then (.error .ofCall, s)
    else
      let time := if 0 ≤ timeout then some (ans.clock.after timeout.toNat) else none
      let s' := ((s.newNode data event needRes time).setFd data.fd.toNat event s.fresh).insertTimeo B timeout s.fresh
      (.ok (), { s' with nodes := Function.update s'.nodes data.fd.toNat (some s.fresh) })

/-- `poller_del`. -/
def del (fd : Int) (s : Poller) : Except PollerErrno Unit × Poller :=
  if fd < 0 then (.error .badf, s)
  else if s.maxOpenFiles ≤ fd.toNat then (.error .mfile, s)
  else match s.nodes fd.toNat with
    | none => (.error .noent, s)
    | some n => (.ok (), ((s.unlink B n).leave n).post n .deleted)

/-- `poller_mod`. -/
def mod (ans : SysAnswers) (data : PollerData) (timeout : Int) (s : Poller) : Except PollerErrno Unit × Poller :=
  match s.check ans data with
  | .error e => (.error e, s)
  | .ok (event, needRes) => match s.nodes data.fd.toNat with
    | none => (.error .noent, s)
    | some old =>
      if !ans.epollCtl then (.error .ofCall, s)
      else
        let time := if 0 ≤ timeout then some (ans.clock.after timeout.toNat) else none
        let s₁ := s.setFd data.fd.toNat event s.fresh
        let s₂ := ((s₁.unlink B old).forget old).post old .modified
        let s₃ := (s₂.newNode data event needRes time).insertTimeo B timeout s.fresh
        (.ok (), { s₃ with nodes := Function.update s₃.nodes data.fd.toNat (some s.fresh) })

/-- `poller_set_timeout`. -/
def setTimeout (ans : SysAnswers) (fd : Int) (timeout : Int) (s : Poller) : Except PollerErrno Unit × Poller :=
  if fd < 0 then (.error .badf, s)
  else if s.maxOpenFiles ≤ fd.toNat then (.error .mfile, s)
  else match s.nodes fd.toNat with
    | none => (.error .noent, s)
    | some n =>
      let s' := s.unlink B n
      let time := if 0 ≤ timeout then ans.clock.after timeout.toNat else s'.timeout n
      (.ok (), { s' with timeout := Function.update s'.timeout n time }.insertTimeo B timeout n)

/-- `poller_add_timer`. -/
def addTimer (ans : SysAnswers) (value : Timespec) (s : Poller) : Except PollerErrno Unit × Poller :=
  if !ans.mallocNode then (.error .ofCall, s)
  else
    let time := ans.clock.plus value.sec value.nsec value.normal
    (.ok (), (s.newNode ⟨.timer, -1, false⟩ 0 false (some time)).insertNode B s.fresh)

/-- `__poller_remove_node`. -/
def removeNode (n : NodeId) (s : Poller) : Bool × Poller :=
  if (s.node n).removed then (true, s)
  else (false, (s.unlink B n).leave n)

/-- `__poller_handle_timeout` while it has the mutex: the nodes it is to call back. -/
def handleTimeout (time : Timespec) (s : Poller) : List NodeId × Poller :=
  let r := s.toTimeoQueue.expire B time
  (r.1, r.1.foldl (fun s n => s.leave n) { s with toTimeoQueue := r.2 })

/-- `__poller_set_timer`. -/
def setTimer (s : Poller) : Poller :=
  let node := match s.timeoList.head?, s.treeFirst with
    | some n, some first => if s.cmp first n < 0 then some first else some n
    | some n, none => some n
    | none, first => first
  match node with
  | some n => s.setTimerfd (s.timeout n)
  | none => s.setTimerfd ⟨0, 0, by decide⟩

/-- The nodes taken off the tree in `poller_stop`, in front of those of the list. -/
def drainTree : Nat → BinaryTree NodeId → List NodeId → List NodeId
  | 0, _, l => l
  | _ + 1, .nil, l => l
  | k + 1, .node n a b, l => drainTree k (B.erase n (.node n a b)) (n :: l)

/-- A node left when the poller stops. -/
def stopNode (n : NodeId) (s : Poller) : Poller := ((s.leave n).setResult n .stopped 0).callback n

/-- The lists of `poller_stop` once all nodes are in one of them. -/
def gathered (s : Poller) : Poller :=
  { s with
    nodes := Function.update (Function.update s.nodes s.pipeRd none) s.pipeWr none
    treeFirst := none
    treeLast := none
    timeoTree := .nil
    timeoList := []
    noTimeoList := [] }

/-- `poller_stop` behind `__poller_handle_pipe`: every node left is called back. -/
def sweep (s : Poller) : Poller :=
  let l := s.noTimeoList ++ drainTree B (inorder s.timeoTree).length s.timeoTree s.timeoList
  l.foldl (fun s n => stopNode n s) s.gathered

end Poller

/-! ## Sequences of operations -/

/-- The operations on the registry, each of them a section under the mutex. -/
inductive PollerOp where
  | start
  | add (ans : SysAnswers) (data : PollerData) (timeout : Int)
  | mod (ans : SysAnswers) (data : PollerData) (timeout : Int)
  | del (fd : Int)
  | setTimeout (ans : SysAnswers) (fd : Int) (timeout : Int)
  | addTimer (ans : SysAnswers) (value : Timespec)
  | removeNode (n : NodeId)
  | handleTimeout (time : Timespec)

namespace Poller

variable (B : Balance NodeId)

/-- `poller_start`, once the thread is there. -/
def started (s : Poller) : Poller := { s with stopped := false }

def exec : PollerOp → Poller → Except PollerErrno Unit × Poller
  | .start, s => (.ok (), s.started)
  | .add ans data timeout, s => s.add B ans data timeout
  | .mod ans data timeout, s => s.mod B ans data timeout
  | .del fd, s => s.del B fd
  | .setTimeout ans fd timeout, s => s.setTimeout B ans fd timeout
  | .addTimer ans value, s => s.addTimer B ans value
  | .removeNode n, s => (.ok (), (s.removeNode B n).2)
  | .handleTimeout time, s => (.ok (), (s.handleTimeout B time).2)

/-- `__poller_remove_node` is called for nodes with a descriptor that are registered, or flagged as removed. -/
def Callable (s : Poller) : PollerOp → Prop
  | .removeNode n => (n ∈ s.live ∧ 0 ≤ (s.node n).data.fd) ∨ (s.node n).removed = true
  | _ => True

end Poller

end Tinywf
