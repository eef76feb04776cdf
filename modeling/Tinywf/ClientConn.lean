import Tinywf.ServerConn
/-!
# ClientConn — one connection to a target, from `launch_conn` to `release_conn`

The entry of a connection that was requested, its registration with the poller, the requests it carries one after the
other, and the threads at work on it.  A step is what one thread does between two looks at what other threads change: a
section under `target->mutex` or `entry->mutex` is one step, but for that of `request_idle_conn`, which holds
`entry->mutex` over several.

A request that finds no entry in `idle_list`, or only such as the poller no longer has, goes on without this connection:
the sessions here are those of the requests that it carries, in their order.  What a system call answers, and what a user
decides, is left open.
-/
namespace Tinywf

/-- The `CONN_STATE_*` of a connection that was requested. -/
inductive ClientState where
  | connecting | receiving | success | idle | closing | error
deriving DecidableEq

/-- `PD_OP_CONNECT`, `PD_OP_READ` and `PD_OP_WRITE`. -/
inductive ClientOp where
  | connect | read | write
deriving DecidableEq

/-- Where the poller's thread is in `__poller_handle_read`. -/
inductive ClientReading where
  /-- Between two messages. -/
  | waiting
  /-- `create_reply` looks at `entry->state`. -/
  | creating
  /-- It has seen `CONN_STATE_IDLE` and waits for `entry->mutex`. -/
  | blocked
  /-- It looks at `entry->state` once more. -/
  | checking
  /-- A message is being read. -/
  | message
  /-- `append_reply` has ended the message; its result is next. -/
  | complete
  /-- `__poller_remove_node`, for a last result of that state. -/
  | ending (st : PrSt)
deriving DecidableEq

/-- Where the registration of a connection is, or its last result: it holds one reference of the entry. -/
inductive ClientReg where
  /-- In `poller->nodes`. -/
  | table (op : ClientOp)
  /-- Taken out by `mpoller_del`, in the poller's pipe. -/
  | piped (op : ClientOp)
  /-- Its last result is in the message queue. -/
  | queued (op : ClientOp) (st : PrSt)
  /-- `handle_connect_result` is at work on a connection that is made. -/
  | starting
  /-- `handle_request_result` has read `entry->session`. -/
  | written (st : PrSt) (session : Nat)
  /-- There is none, and its reference is given back or handed on. -/
  | dropped
deriving DecidableEq

/-- After `mpoller_del`; a poller that is stopped gives the result at once. -/
def ClientReg.deleted (halted : Bool) : ClientReg → ClientReg
  | table op => if halted then .queued op .deleted else .piped op
  | r => r

/-- After `poller_stop`. -/
def ClientReg.stopped : ClientReg → ClientReg
  | table op => .queued op .stopped
  | piped op => .queued op .deleted
  | r => r

/-- Where `request_idle_conn` is within `entry->mutex`. -/
inductive IdleCall where
  | none
  /-- It has taken the entry out of `idle_list`: `mpoller_set_timeout` next. -/
  | taken
  /-- The entry has the session: its message is next. -/
  | sending
  /-- The message is sent, or left to the poller, or given up; `entry->mutex` is still held. -/
  | unlocking
deriving DecidableEq

/-- What a thread does behind `session->handle`. -/
inductive Finish where
  /-- It gives back its reference. -/
  | decref
  /-- It calls `release_conn`. -/
  | free
  /-- It locks `entry->mutex`, and then gives back its reference. -/
  | wait
deriving DecidableEq

/-- The session of a request. -/
structure ClientSession where
  /-- Whether `session->timeout` is not 0, once `append_reply` has ended the reply. -/
  kept : Option Bool
  /-- How often `target->release` was called for it. -/
  released : Nat
  /-- The states `handle` was called with. -/
  handled : List CsState
deriving DecidableEq

/-- What a thread is to call: the session, its state, and what is done behind it. -/
structure ClientCall where
  session : Nat
  state : CsState
  finish : Finish
deriving DecidableEq

inductive ClientBirth where
  | absent
  /-- `launch_conn` has made the entry. -/
  | launched
  | registered
  /-- The connection could not be registered, and `request` is back with -1. -/
  | refused
deriving DecidableEq

structure ClientConn where
  birth : ClientBirth
  stopFlag : Bool
  state : ClientState
  ref : Int
  /-- `entry->list` is in `target->idle_list`. -/
  inIdle : Bool
  session : Nat
  seq : Nat
  reading : ClientReading
  registration : ClientReg
  /-- The poller of the connection is stopped. -/
  halted : Bool
  /-- The nodes that `mpoller_mod` has replaced, until their `PR_ST_MODIFIED` is handled. -/
  modified : Nat
  success : Success
  calling : IdleCall
  /-- The threads that are to call `target->release`, and then `handle`. -/
  releasing : List ClientCall
  /-- The threads that are to call `handle`. -/
  due : List ClientCall
  /-- The threads that lock `entry->mutex`, to give back their reference. -/
  waiting : Nat
  /-- The threads with nothing left to do but give back their reference. -/
  leaving : Nat
  /-- The threads that call `release_conn`. -/
  freeing : Nat
  released : Nat
  /-- `list_del` was called on an entry that was not in the list. -/
  misused : Bool
  sessions : Nat → ClientSession

namespace ClientSession

def fresh : ClientSession := ⟨none, 0, []⟩

end ClientSession

namespace ClientConn

/-- Before `launch_conn`. -/
def absent : ClientConn where
  birth := .absent
  stopFlag := false
  state := .connecting
  ref := 0
  inIdle := false
  session := 0
  seq := 0
  reading := .waiting
  registration := .dropped
  halted := false
  modified := 0
  success := .none
  calling := .none
  releasing := []
  due := []
  waiting := 0
  leaving := 0
  freeing := 0
  released := 0
  misused := false
  sessions := fun _ => .fresh

/-- `list_del(&entry->list)`. -/
def listDel (c : ClientConn) : ClientConn := { c with inIdle := false, misused := c.misused || !c.inIdle }

/-- `mpoller_del(entry->sockfd, entry->mpoller)`. -/
def mpollerDel (c : ClientConn) : ClientConn := { c with registration := c.registration.deleted c.halted }

/-- A thread is to call `target->release` and `session->handle`. -/
def tells (c : ClientConn) (s : Nat) (st : CsState) (f : Finish) : ClientConn :=
  { c with releasing := ⟨s, st, f⟩ :: c.releasing }

/-- A thread gives back its reference next. -/
def leave (c : ClientConn) : ClientConn := { c with leaving := c.leaving + 1 }

def setSession (c : ClientConn) (i : Nat) (s : ClientSession) : ClientConn :=
  { c with sessions := Function.update c.sessions i s }

/-- The state that a session is told, from that of a last result. -/
def csState : PrSt → CsState
  | .finished => .error
  | .error => .error
  | .deleted => .stopped
  | .modified => .stopped
  | .stopped => .stopped

/-- `handle_incoming_reply` under `target->mutex`, for a complete reply. -/
def replyComplete (c : ClientConn) (s : Nat) : ClientConn :=
  tells { (if c.state = .success then
      if (c.sessions s).kept = some false then { c with ref := c.ref + 1, state := .closing }
      else { c with ref := c.ref + 1, state := .idle, inIdle := true }
    else c) with success := .none } s .success .decref

/-- `handle_incoming_reply` under `target->mutex` and `entry->mutex`, for a last result. -/
def replyEnded (c : ClientConn) (st : PrSt) : ClientConn := match c.state with
  | .idle => (listDel { c with registration := .dropped }).leave
  | .error => tells { c with registration := .dropped } c.session .error .decref
  | .receiving => tells { c with registration := .dropped } c.session (csState st) .decref
  | .success => { c with registration := .dropped, state := .closing }
  | .connecting => leave { c with registration := .dropped }
  | .closing => leave { c with registration := .dropped }

/-- What a thread does behind `session->handle`. -/
def finish (c : ClientConn) : Finish → ClientConn
  | .decref => c.leave
  | .free => { c with freeing := c.freeing + 1 }
  | .wait => { c with waiting := c.waiting + 1 }

end ClientConn

/-- What happens to a connection, by the function that does it. -/
inductive ClientAct where
  | launchConn
  | connectAdd (added : Bool)
  | deinit
  | pollerConnect
  | pollerRead
  | createReply
  | messageIn (made : Bool)
  | appendReply (keep : Bool)
  | pollerResult
  | pollerStop
  | stopDel
  | handleModified
  | handleConnectResult
  | handleIncomingReply
  | handleRequestResult
  | targetRelease
  | callHandle
  | lockEntry
  | decref
  | releaseConn
  | requestIdleConn
  | sendMessage
deriving DecidableEq

open ClientConn

/-- A step of the threads at work on a connection. -/
inductive ClientStep : ClientConn → ClientAct → ClientConn → Prop
  -- `request_new_conn`
  | launch {c : ClientConn} (new : c.birth = .absent) :
      ClientStep c .launchConn
        { c.setSession 0 .fresh with birth := .launched, state := .connecting, ref := 1, session := 0, seq := 1 }
  | add {c : ClientConn} (new : c.birth = .launched) :
      ClientStep c (.connectAdd true) { c with birth := .registered, registration := .table .connect }
  | addFails {c : ClientConn} (new : c.birth = .launched) :
      ClientStep c (.connectAdd false) { c with birth := .refused, released := c.released + 1 }
  | deinit {c : ClientConn} : ClientStep c .deinit { c with stopFlag := true }
  -- `__poller_handle_read`, which may go on with a node that is deleted meanwhile
  | read {c : ClientConn} (registered : c.registration = .table .read ∨ c.registration = .piped .read)
      (runs : c.halted = false) (at_message : c.reading = .waiting) :
      ClientStep c .pollerRead { c with reading := .creating }
  | readFails {c : ClientConn} {st : PrSt} (registered : c.registration = .table .read ∨ c.registration = .piped .read)
      (runs : c.halted = false) (at_message : c.reading = .waiting ∨ c.reading = .message)
      (fails : st = .finished ∨ st = .error) :
      ClientStep c .pollerRead { c with reading := .ending st }
  | remove {c : ClientConn} {st : PrSt} (ends : c.reading = .ending st) :
      ClientStep c .pollerResult
        { c with reading := .waiting,
                 registration := if c.registration = .table .read then .queued .read st else c.registration }
  -- `create_reply`
  | look {c : ClientConn} (creates : c.reading = .creating) :
      ClientStep c .createReply { c with reading := if c.state = .idle then .blocked else .checking }
  | pass {c : ClientConn} (blocks : c.reading = .blocked) (lock : c.calling = .none) :
      ClientStep c .createReply { c with reading := .checking }
  | takeMessage {c : ClientConn} {b : Bool} (checks : c.reading = .checking) (receives : c.state = .receiving) :
      ClientStep c (.messageIn b) { c with reading := if b then .message else .ending .error }
  | takeNone {c : ClientConn} (checks : c.reading = .checking) (late : c.state ≠ .receiving) :
      ClientStep c .createReply { c with reading := .ending .error }
  -- `append_reply`, for a reply that is complete: with no keep-alive timeout the connection is deleted
  | append {c : ClientConn} {keep : Bool} (reads : c.reading = .message) :
      ClientStep c (.appendReply keep)
        { (if keep then c else c.mpollerDel).setSession c.session { c.sessions c.session with kept := some keep } with
          reading := .complete, state := .success }
  | post {c : ClientConn} (done : c.reading = .complete) :
      ClientStep c .pollerResult { c with reading := .waiting, success := .queued }
  -- the poller's thread elsewhere: `__poller_handle_connect`, `__poller_handle_write`, `__poller_handle_timeout`,
  -- `__poller_handle_pipe`
  | connect {c : ClientConn} {st : PrSt} (registered : c.registration = .table .connect) (runs : c.halted = false)
      (at_event : c.reading = .waiting) (ends : st = .finished ∨ st = .error) :
      ClientStep c .pollerConnect { c with registration := .queued .connect st }
  | write {c : ClientConn} {st : PrSt} (registered : c.registration = .table .write) (runs : c.halted = false)
      (at_event : c.reading = .waiting) (ends : st = .finished ∨ st = .error) :
      ClientStep c .pollerResult { c with registration := .queued .write st }
  | timeOut {c : ClientConn} {op : ClientOp} (registered : c.registration = .table op) (runs : c.halted = false)
      (at_event : c.reading = .waiting ∨ c.reading = .message) :
      ClientStep c .pollerResult { c with reading := .waiting, registration := .queued op .error }
  | pipe {c : ClientConn} {op : ClientOp} (deleted : c.registration = .piped op) (runs : c.halted = false)
      (at_event : c.reading = .waiting ∨ c.reading = .message) :
      ClientStep c .pollerResult { c with reading := .waiting, registration := .queued op .deleted }
  -- `poller_stop`, the thread joined
  | halt {c : ClientConn} (stopping : c.stopFlag = true) (runs : c.halted = false)
      (at_event : c.reading = .waiting ∨ c.reading = .message) :
      ClientStep c .pollerStop
        { c with halted := true, reading := .waiting, registration := c.registration.stopped }
  -- a thread finds `stop_flag` set behind `mpoller_add`, and the descriptor may be this connection's by then
  | stopDel {c : ClientConn} (stopping : c.stopFlag = true) : ClientStep c .stopDel c.mpollerDel
  | dismiss {c : ClientConn} (replaced : 0 < c.modified) :
      ClientStep c .handleModified { c with modified := c.modified - 1 }
  -- `handle_connect_result`
  | connectFails {c : ClientConn} {st : PrSt} (queued : c.registration = .queued .connect st) (fails : st ≠ .finished) :
      ClientStep c .handleConnectResult (tells { c with registration := .dropped } c.session (csState st) .free)
  | start {c : ClientConn} (queued : c.registration = .queued .connect .finished) :
      ClientStep c .handleConnectResult { c with registration := .starting }
  -- all is sent
  | startSync {c : ClientConn} (starting : c.registration = .starting) :
      ClientStep c .handleConnectResult { c with registration := .table .read, state := .receiving }
  | startAsync {c : ClientConn} (starting : c.registration = .starting) :
      ClientStep c .handleConnectResult { c with registration := .table .write }
  -- there is no message, or it cannot be sent, or `mpoller_add` fails
  | startFails {c : ClientConn} {sent : Bool} (starting : c.registration = .starting) :
      ClientStep c .handleConnectResult
        (tells { c with registration := .dropped, state := if sent then .receiving else c.state }
          c.session .error .free)
  -- `handle_incoming_reply`
  | pick {c : ClientConn} (queued : c.success = .queued) :
      ClientStep c .handleIncomingReply { c with success := .picked c.session }
  | handleComplete {c : ClientConn} {s : Nat} (picked : c.success = .picked s) :
      ClientStep c .handleIncomingReply (c.replyComplete s)
  | handleEnded {c : ClientConn} {st : PrSt} (queued : c.registration = .queued .read st) (lock : c.calling = .none) :
      ClientStep c .handleIncomingReply (c.replyEnded st)
  -- `handle_request_result`
  | pickWritten {c : ClientConn} {st : PrSt} (queued : c.registration = .queued .write st) :
      ClientStep c .handleRequestResult { c with registration := .written st c.session }
  | writtenRead {c : ClientConn} {s : Nat} (written : c.registration = .written .finished s) :
      ClientStep c .handleRequestResult { c with registration := .table .read, state := .receiving }
  -- or `mpoller_add` fails
  | writtenFails {c : ClientConn} {st : PrSt} {s : Nat} (written : c.registration = .written st s) :
      ClientStep c .handleRequestResult
        (tells { c with registration := .dropped, state := if st = .finished then .receiving else c.state }
          s (csState st) .wait)
  -- what a thread with a reference of the entry does last
  | release {c : ClientConn} {call : ClientCall} (owed : call ∈ c.releasing) :
      ClientStep c .targetRelease
        { c.setSession call.session
            { c.sessions call.session with released := (c.sessions call.session).released + 1 } with
          releasing := c.releasing.erase call, due := call :: c.due }
  | call {c : ClientConn} {call : ClientCall} (owed : call ∈ c.due) :
      ClientStep c .callHandle
        (finish { c.setSession call.session
            { c.sessions call.session with handled := (c.sessions call.session).handled ++ [call.state] } with
          due := c.due.erase call } call.finish)
  | lockEntry {c : ClientConn} (waits : 0 < c.waiting) (lock : c.calling = .none) :
      ClientStep c .lockEntry (leave { c with waiting := c.waiting - 1 })
  | decref {c : ClientConn} (leaves : 0 < c.leaving) :
      ClientStep c .decref
        { c with leaving := c.leaving - 1, ref := c.ref - 1, freeing := c.freeing + if c.ref - 1 = 0 then 1 else 0 }
  | releaseConn {c : ClientConn} (frees : 0 < c.freeing) :
      ClientStep c .releaseConn { c with freeing := c.freeing - 1, released := c.released + 1 }
  -- `request_idle_conn`
  | take {c : ClientConn} (idle : c.inIdle = true) (lock : c.calling = .none) :
      ClientStep c .requestIdleConn { c.listDel with calling := .taken }
  | takeGone {c : ClientConn} (taken : c.calling = .taken) (gone : ∀ op, c.registration ≠ .table op) :
      ClientStep c .requestIdleConn { c with state := .closing, calling := .none }
  | takeOn {c : ClientConn} {op : ClientOp} (taken : c.calling = .taken) (registered : c.registration = .table op) :
      ClientStep c .requestIdleConn
        { c.setSession c.seq .fresh with session := c.seq, seq := c.seq + 1, calling := .sending }
  -- `send_message`, with the state `CONN_STATE_IDLE`
  | sendSync {c : ClientConn} (sends : c.calling = .sending) :
      ClientStep c .sendMessage { c with state := .receiving, calling := .unlocking }
  | sendAsync {c : ClientConn} {op : ClientOp} (sends : c.calling = .sending) (registered : c.registration = .table op) :
      ClientStep c .sendMessage
        { c with registration := .table .write, modified := c.modified + 1, calling := .unlocking }
  | sendGone {c : ClientConn} (sends : c.calling = .sending) (gone : ∀ op, c.registration ≠ .table op) :
      ClientStep c .sendMessage { c with state := .receiving, calling := .unlocking }
  | sendFails {c : ClientConn} (sends : c.calling = .sending) :
      ClientStep c .sendMessage { c.mpollerDel with state := .error, calling := .unlocking }
  | unlock {c : ClientConn} (unlocks : c.calling = .unlocking) :
      ClientStep c .requestIdleConn { c with calling := .none }

end Tinywf
