import Tinywf.PollerRegistry
/-!
# PollerThread — the poller's thread, and the other threads

The thread sets the timer, waits, goes through the events it was given, through the pipe and the timeouts, and starts
again.  A handler may look at its node as often as it likes, and ends by going back or by `__poller_remove_node`; what its
message's `append` does to the poller is what another thread may do at that point, too.  `poller_stop` posts a null pointer,
joins the thread and sweeps what is left.
-/
namespace Tinywf

open InorderTree

/-- Where the poller's thread is. -/
inductive PollerPc where
  | unstarted
  | setTimer
  | waiting
  /-- At the next of the events it was given, `pipe` if one of them was the pipe's. -/
  | events (batch : List NodeId) (pipe : Bool)
  | handling (n : NodeId) (batch : List NodeId) (pipe : Bool)
  /-- Behind `__poller_remove_node`, with the node still to be called back. -/
  | ending (n : NodeId) (batch : List NodeId) (pipe : Bool)
  /-- In `__poller_handle_pipe`, with this still to be gone through. -/
  | piped (read : List (Option NodeId)) (stop : Bool)
  | timeout
  /-- In `__poller_handle_timeout`, with these still to be called back. -/
  | expired (l : List NodeId)
  | exited

/-- How far `poller_stop` is. -/
inductive PollerStop where
  | none | posted | joined | swept
deriving DecidableEq

structure PollerSys where
  poller : Poller
  thread : PollerPc
  /-- The thread's `time_node`. -/
  time : Timespec
  stop : PollerStop

inductive PollerAct where
  | op (op : PollerOp) | start
  | setTimer | fire | wake (clock : Timespec) (batch : List NodeId) (pipe : Bool)
  | event | handle | ssl (event : Nat) (ok : Bool) | handled | remove | finish (state : PrSt) (error : Int)
  | readPipe | noPipe | pipeNode | pipeNull | pipeDone | timeout | expire | again
  | post | join | sweep

/-- The operations that any thread may do. -/
def PollerOp.Public : PollerOp → Prop
  | .add .. => True
  | .mod .. => True
  | .del _ => True
  | .setTimeout .. => True
  | .addTimer .. => True
  | _ => False

/-- Those that bring a new node. -/
def PollerOp.Brings : PollerOp → Prop
  | .add .. => True
  | .mod .. => True
  | .addTimer .. => True
  | _ => False

/-- `POLLER_BUFSIZE / sizeof (void *)`. -/
def pipeRead : Nat := 32768

namespace PollerSys

def start (maxOpenFiles pipeRd pipeWr : Nat) : PollerSys :=
  ⟨.create maxOpenFiles pipeRd pipeWr, .unstarted, ⟨0, 0, Nat.zero_lt_succ _⟩, .none⟩

end PollerSys

/-- A step; `cap` is how many pointers the pipe can hold. -/
inductive PollerStep (B : Balance NodeId) (cap : Nat) : PollerSys → PollerAct → PollerSys → Prop
  | op {s : PollerSys} (op : PollerOp) (free : op.Public) (late : s.stop = .swept → ¬ op.Brings)
      (room : (s.poller.exec B op).2.pipe.length ≤ cap) :
      PollerStep B cap s (.op op) { s with poller := (s.poller.exec B op).2 }
  | start {s : PollerSys} (thread : s.thread = .unstarted) :
      PollerStep B cap s .start { s with poller := s.poller.started, thread := .setTimer }
  | setTimer {s : PollerSys} (thread : s.thread = .setTimer) :
      PollerStep B cap s .setTimer { s with poller := s.poller.setTimer, thread := .waiting }
  | fire {s : PollerSys} (t : Timespec) (armed : s.poller.timerfd = .armed t) :
      PollerStep B cap s .fire { s with poller := { s.poller with timerfd := .fired } }
  | wake {s : PollerSys} (clock : Timespec) (batch : List NodeId) (pipe : Bool) (thread : s.thread = .waiting)
      (ready : ∀ n ∈ batch, ∃ fd ev, s.poller.epoll fd = some (ev, n)) (once : batch.Nodup)
      (readable : pipe = true → s.poller.pipe ≠ []) :
      PollerStep B cap s (.wake clock batch pipe) { s with thread := .events batch pipe, time := clock }
  | event {s : PollerSys} (n : NodeId) (batch : List NodeId) (pipe : Bool) (thread : s.thread = .events (n :: batch) pipe) :
      PollerStep B cap s .event { s with thread := .handling n batch pipe }
  /-- A read, a write, a message's `append`, and so on. -/
  | handle {s : PollerSys} (n : NodeId) (batch : List NodeId) (pipe : Bool) (thread : s.thread = .handling n batch pipe) :
      PollerStep B cap s .handle s
  /-- The section in `__poller_handle_ssl_error`. -/
  | ssl {s : PollerSys} (n : NodeId) (batch : List NodeId) (pipe : Bool) (event : Nat) (ok : Bool)
      (thread : s.thread = .handling n batch pipe) :
      PollerStep B cap s (.ssl event ok) { s with
        poller := if (s.poller.node n).removed || !ok then s.poller else { s.poller with
          epoll := Function.update s.poller.epoll (s.poller.node n).data.fd.toNat (some (event, n))
          node := Function.update s.poller.node n { s.poller.node n with event := event } } }
  | handled {s : PollerSys} (n : NodeId) (batch : List NodeId) (pipe : Bool) (thread : s.thread = .handling n batch pipe) :
      PollerStep B cap s .handled { s with thread := .events batch pipe }
  | remove {s : PollerSys} (n : NodeId) (batch : List NodeId) (pipe : Bool) (thread : s.thread = .handling n batch pipe) :
      PollerStep B cap s .remove { s with
        poller := (s.poller.removeNode B n).2
        thread := if (s.poller.removeNode B n).1 then .events batch pipe else .ending n batch pipe }
  | finish {s : PollerSys} (n : NodeId) (batch : List NodeId) (pipe : Bool) (state : PrSt) (error : Int)
      (thread : s.thread = .ending n batch pipe) (ends : state = .finished ∨ state = .error) :
      PollerStep B cap s (.finish state error) { s with
        poller := (s.poller.setResult n state error).callback n
        thread := .events batch pipe }
  | readPipe {s : PollerSys} (thread : s.thread = .events [] true) :
      PollerStep B cap s .readPipe { s with
        poller := { s.poller with pipe := s.poller.pipe.drop pipeRead }
        thread := .piped (s.poller.pipe.take pipeRead) false }
  | noPipe {s : PollerSys} (thread : s.thread = .events [] false) :
      PollerStep B cap s .noPipe { s with thread := .timeout }
  | pipeNode {s : PollerSys} (n : NodeId) (l : List (Option NodeId)) (stop : Bool)
      (thread : s.thread = .piped (some n :: l) stop) :
      PollerStep B cap s .pipeNode { s with poller := s.poller.callback n, thread := .piped l stop }
  | pipeNull {s : PollerSys} (l : List (Option NodeId)) (stop : Bool) (thread : s.thread = .piped (none :: l) stop) :
      PollerStep B cap s .pipeNull { s with thread := .piped l true }
  | pipeDone {s : PollerSys} (stop : Bool) (thread : s.thread = .piped [] stop) :
      PollerStep B cap s .pipeDone { s with thread := if stop then .exited else .timeout }
  | timeout {s : PollerSys} (thread : s.thread = .timeout) :
      PollerStep B cap s .timeout { s with
        poller := (s.poller.handleTimeout B s.time).2
        thread := .expired (s.poller.handleTimeout B s.time).1 }
  | expire {s : PollerSys} (n : NodeId) (l : List NodeId) (thread : s.thread = .expired (n :: l)) :
      PollerStep B cap s .expire { s with
        poller := (s.poller.setResult n .error ETIMEDOUT).callback n
        thread := .expired l }
  | again {s : PollerSys} (thread : s.thread = .expired []) :
      PollerStep B cap s .again { s with thread := .setTimer }
  | post {s : PollerSys} (begun : s.thread ≠ .unstarted) (stop : s.stop = .none) (room : s.poller.pipe.length < cap) :
      PollerStep B cap s .post { s with
        poller := { s.poller with pipe := s.poller.pipe ++ [none] }
        stop := .posted }
  | join {s : PollerSys} (stop : s.stop = .posted) (thread : s.thread = .exited) :
      PollerStep B cap s .join { s with poller := { s.poller with stopped := true }, stop := .joined }
  | sweep {s : PollerSys} (stop : s.stop = .joined) :
      PollerStep B cap s .sweep { s with
        poller := (((s.poller.pipe.take pipeRead).filterMap id).foldl (fun p n => Poller.callback n p)
          { s.poller with pipe := [] }).sweep B
        stop := .swept }

/-- The node the thread is at. -/
def PollerPc.current : PollerPc → List NodeId
  | events (n :: _) _ => [n]
  | handling n _ _ => [n]
  | ending n _ _ => [n]
  | piped (some n :: _) _ => [n]
  | expired (n :: _) => [n]
  | _ => []

/-- The nodes a step looks at, or those it may: an operation and the timer at any that are registered. -/
def PollerSys.touched (s : PollerSys) : PollerAct → List NodeId
  | .op _ => s.poller.live
  | .setTimer => s.poller.timed
  | .timeout => s.poller.timed
  | .sweep => s.poller.pipe.filterMap id ++ s.poller.live
  | _ => s.thread.current

end Tinywf
