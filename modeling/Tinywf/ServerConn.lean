import Tinywf.Lts
import Tinywf.Poller
/-!
# ServerConn — one accepted connection, from `accept` to `release_conn`

The entry of a connection, its `CommServiceTarget`, its registration with the poller, the sessions on it, and the
threads at work on it.  A step is what one thread does between two looks at what other threads change: a section under
a mutex is one step, but for those that take `service->mutex` within `target->mutex`, which are one step up to there
and one from there.  A thread that only has its reference of the entry to give back is counted, not named.

What a user decides (whether there is a session, a message, a time limit, a reply) and what a system call answers is
left open.  A session is replied to once and after its `TOREPLY`, and destroyed when no call of its `handle` is still
to come.
-/
namespace Tinywf

/-- `CONN_STATE_*` of an accepted connection. -/
inductive ConnState where
  | connected | receiving | success | idle | keepalive | closing | error
deriving DecidableEq

/-- `CS_STATE_*`. -/
inductive CsState where
  | success | error | stopped | toreply
deriving DecidableEq

/-- `PD_OP_READ` and `PD_OP_WRITE`. -/
inductive ConnOp where
  | read | write
deriving DecidableEq

/-- Where the poller's thread is in `__poller_handle_read`. -/
inductive Reading where
  /-- Between two messages. -/
  | waiting
  /-- `create_request` looks at `entry->state`. -/
  | creating
  /-- It has seen `CONN_STATE_IDLE` and waits for `target->mutex`. -/
  | blocked
  /-- It locks `service->mutex`. -/
  | taking
  /-- It calls `new_session`. -/
  | taken
  /-- The entry has the session. -/
  | made
  /-- The entry is receiving; the target is counted next. -/
  | counting
  /-- A message is being read. -/
  | message
  /-- `append_request` has ended the message; its result is next. -/
  | complete
  /-- `__poller_remove_node`, for a last result of that state. -/
  | ending (st : PrSt)
deriving DecidableEq

/-- Where the registration of a connection is, or its last result: it holds one reference of the entry. -/
inductive Registration where
  /-- In `poller->nodes`. -/
  | table (op : ConnOp)
  /-- Taken out by `mpoller_del`, in the poller's pipe. -/
  | piped (op : ConnOp)
  /-- Its last result is in the message queue. -/
  | queued (op : ConnOp) (st : PrSt)
  /-- `handle_incoming_request` has seen `CONN_STATE_KEEPALIVE` and locks `service->mutex`. -/
  | unlinking
  /-- `handle_reply_result` has read `entry->session`. -/
  | written (st : PrSt) (session : Nat)
  /-- There is none, and its reference is given back or handed on. -/
  | dropped
deriving DecidableEq

/-- After `mpoller_del`; a poller that is stopped gives the result at once. -/
def Registration.deleted (halted : Bool) : Registration → Registration
  | table op => if halted then .queued op .deleted else .piped op
  | r => r

/-- After `poller_stop`. -/
def Registration.stopped : Registration → Registration
  | table op => .queued op .stopped
  | piped op => .queued op .deleted
  | r => r

/-- The result of a complete request. -/
inductive Success where
  | none
  | queued
  /-- `handle_incoming_request` has read `entry->session`. -/
  | picked (session : Nat)
deriving DecidableEq

/-- Where `Communicator::reply` is within `target->mutex`. -/
inductive Replying where
  | none
  /-- It has taken the entry out of `target->idle_list`. -/
  | found (session : Nat)
  /-- All is sent, and there is a keep-alive timeout: `service->mutex` next. -/
  | linking (session : Nat)
  /-- All is sent: `mpoller_del` next. -/
  | closing (session : Nat)
  /-- The poller writes the rest; `target->mutex` is still held. -/
  | unlocking
deriving DecidableEq

inductive SessionLife where
  | unborn
  /-- From `new_session`. -/
  | made
  /-- From `target->incref()`. -/
  | counted
  | destroyed
deriving DecidableEq

structure ServerSession where
  life : SessionLife
  passive : Nat
  /-- The states `handle` was called with. -/
  handled : List CsState
  /-- What `reply` came to: `some true` is 0. -/
  replied : Option Bool
deriving DecidableEq

namespace ServerSession

def unborn : ServerSession := ⟨.unborn, 0, [], none⟩

/-- No call of `handle` is to come, unless the user replies. -/
def Over (s : ServerSession) : Prop :=
  s.life = .counted ∧ (s.passive = 1 ∧ .toreply ∈ s.handled ∨ s.replied = some false ∨ ∃ st ∈ s.handled, st ≠ .toreply)

end ServerSession

/-- How far `accept` got. -/
inductive Birth where
  | absent
  /-- `Communicator::accept` has made the target. -/
  | accepted
  /-- `accept_conn` has made the entry. -/
  | entered
  | registered
  /-- Closed without an entry, or with one that could not be registered. -/
  | refused
deriving DecidableEq

/-- The end of a `CommServiceTarget`. -/
inductive TargetEnd where
  | none
  /-- The last reference is given back: `service->decref()` next. -/
  | unref
  /-- That was the service's last: `handle_unbound` next. -/
  | unbinding
  /-- `deinit` and `delete` next. -/
  | deleting
  | deleted
deriving DecidableEq

structure ServerConn where
  birth : Birth
  /-- `handle_listen_result` is still to look at `stop_flag`. -/
  checking : Bool
  state : ConnState
  ref : Int
  /-- `entry->list` is in `target->idle_list`. -/
  inIdle : Bool
  /-- `entry->list` is in `service->alive_list`. -/
  inAlive : Bool
  session : Nat
  seq : Nat
  reading : Reading
  registration : Registration
  /-- The poller of the connection is stopped. -/
  halted : Bool
  /-- The nodes that `mpoller_mod` has replaced, until their `PR_ST_MODIFIED` is handled. -/
  modified : Nat
  success : Success
  replying : Replying
  /-- `handle_reply_result` has registered the connection again, for a session, and locks `service->mutex`. -/
  relinking : Option Nat
  /-- `drain` has taken the entry and deleted it, and is still to set its state. -/
  draining : Bool
  /-- The calls of `handle` that threads are about to make. -/
  due : List (Nat × CsState)
  /-- The threads with nothing left to do but give back their reference of the entry. -/
  leaving : Nat
  /-- The threads that gave back the last one and call `release_conn`. -/
  freeing : Nat
  released : Nat
  /-- `list_del` was called on an entry that was not in exactly one list. -/
  misused : Bool
  sessions : Nat → ServerSession
  targetRef : Int
  /-- The threads about to call `target->decref()`. -/
  dropping : Nat
  targetEnd : TargetEnd

/-- What a connection sees of its service. -/
structure ServiceView where
  /-- `service->listen_fd >= 0`. -/
  listening : Bool
  stopFlag : Bool
  /-- Nobody holds `service->mutex`. -/
  free : Bool

namespace ServerConn

/-- Nobody is between two steps of a section under `target->mutex`. -/
def Unlocked (c : ServerConn) : Prop :=
  c.replying = .none ∧ c.relinking = none ∧ c.registration ≠ .unlinking

instance (c : ServerConn) : Decidable c.Unlocked := inferInstanceAs (Decidable (_ ∧ _ ∧ _))

/-- `list_del(&entry->list)`. -/
def listDel (c : ServerConn) : ServerConn :=
  { c with inIdle := false, inAlive := false, misused := c.misused || c.inIdle == c.inAlive }

/-- `mpoller_del(entry->sockfd, entry->mpoller)`. -/
def mpollerDel (c : ServerConn) : ServerConn := { c with registration := c.registration.deleted c.halted }

/-- A thread is to call `session->handle`, and then gives back its reference. -/
def owe (c : ServerConn) (s : Nat) (st : CsState) : ServerConn := { c with due := (s, st) :: c.due }

/-- A thread gives back its reference next. -/
def leave (c : ServerConn) : ServerConn := { c with leaving := c.leaving + 1 }

/-- The state that a session is told, from that of a last result. -/
def csState : PrSt → CsState
  | .finished => .error
  | .error => .error
  | .deleted => .stopped
  | .modified => .stopped
  | .stopped => .stopped

/-- `handle_incoming_request` under `target->mutex`, for a complete request. -/
def requestComplete (c : ServerConn) (s : Nat) : ServerConn :=
  owe { (if c.state = .success then { c with ref := c.ref + 1, state := .idle, inIdle := true } else c) with
    success := .none } s .toreply

/-- `handle_incoming_request` under `target->mutex`, for a last result, up to `service->mutex`. -/
def requestEnded (c : ServerConn) (st : PrSt) : ServerConn := match c.state with
  | .keepalive => { c with registration := .unlinking }
  | .idle => (listDel { c with registration := .dropped }).leave
  | .error => owe { c with registration := .dropped } c.session .error
  | .receiving => owe { c with registration := .dropped } c.session (csState st)
  | .success => { c with registration := .dropped, state := .closing }
  | .connected => leave { c with registration := .dropped }
  | .closing => leave { c with registration := .dropped }

/-- `handle_incoming_request` under `service->mutex`. -/
def requestUnlinked (c : ServerConn) : ServerConn :=
  leave { (if c.state = .keepalive then c.listDel else c) with registration := .dropped }

def setSession (c : ServerConn) (i : Nat) (s : ServerSession) : ServerConn :=
  { c with sessions := Function.update c.sessions i s }

/-- `reply` is back with 0, or will be when its call of `handle` is. -/
def replies (c : ServerConn) (s : Nat) : ServerConn :=
  c.setSession s { c.sessions s with replied := some true }

/-- `send_message_sync` under `service->mutex`. -/
def syncKept (c : ServerConn) (listening : Bool) (s : Nat) : ServerConn :=
  if listening then (owe { c with state := .keepalive, inAlive := true, replying := .none } s .success).replies s
  else { c with replying := .closing s }

/-- `handle_reply_result` under `service->mutex`. -/
def asyncKept (c : ServerConn) (kept : Bool) (s : Nat) : ServerConn :=
  owe { (if kept then { c with state := .keepalive, inAlive := true } else { c.mpollerDel with state := .closing }) with
    relinking := none } s .success

/-- `drain` takes the entry out of the list, and the connection out of the poller. -/
def drainTaken (c : ServerConn) : ServerConn := { c.listDel.mpollerDel with draining := true }

/-- `drain` sets the entry's state. -/
def drainClosed (c : ServerConn) : ServerConn := { c with state := .closing, draining := false }

end ServerConn

/-- What happens to a connection, by the function that does it. -/
inductive ConnAct where
  | acceptConn (made : Bool)
  | listenAdd (added : Bool)
  | listenCheck
  | pollerRead
  | createRequest
  /-- `new_session` is back, with a session or with NULL. -/
  | newSession (made : Bool)
  | messageIn (made : Bool)
  | appendRequest
  | pollerResult
  | pollerStop
  | handleModified
  | handleIncomingRequest
  | handleReplyResult
  | callHandle
  | decref
  | releaseConn
  | targetDecref
  | reply
  | sendMessageSync
  | sendMessageAsync
  | destroySession
deriving DecidableEq

open ServerConn

/-- A step of the threads at work on a connection. -/
inductive ConnStep (view : ServiceView) : ConnAct → ServerConn → ServerConn → Prop
  -- `handle_listen_result`
  | refuse {c : ServerConn} (new : c.birth = .accepted) :
      ConnStep view (.acceptConn false) c { c with birth := .refused, dropping := c.dropping + 1 }
  | enter {c : ServerConn} (new : c.birth = .accepted) :
      ConnStep view (.acceptConn true) c { c with birth := .entered, state := .connected, ref := 1, seq := 0 }
  | add {c : ServerConn} (new : c.birth = .entered) :
      ConnStep view (.listenAdd true) c { c with birth := .registered, registration := .table .read, checking := true }
  | addFails {c : ServerConn} (new : c.birth = .entered) :
      ConnStep view (.listenAdd false) c
        { c with birth := .refused, released := c.released + 1, dropping := c.dropping + 1 }
  | check {c : ServerConn} (looks : c.checking = true) :
      ConnStep view .listenCheck c { (if view.stopFlag then c.mpollerDel else c) with checking := false }
  -- `__poller_handle_read`, which may go on with a node that is deleted meanwhile
  | read {c : ServerConn} (registered : c.registration = .table .read ∨ c.registration = .piped .read)
      (runs : c.halted = false) (at_message : c.reading = .waiting) :
      ConnStep view .pollerRead c { c with reading := .creating }
  | readFails {c : ServerConn} {st : PrSt} (registered : c.registration = .table .read ∨ c.registration = .piped .read)
      (runs : c.halted = false) (at_message : c.reading = .waiting ∨ c.reading = .message)
      (fails : st = .finished ∨ st = .error) :
      ConnStep view .pollerRead c { c with reading := .ending st }
  | remove {c : ServerConn} {st : PrSt} (ends : c.reading = .ending st) :
      ConnStep view .pollerResult c
        { c with reading := .waiting,
                 registration := if c.registration = .table .read then .queued .read st else c.registration }
  -- `create_request`
  | look {c : ServerConn} (creates : c.reading = .creating) :
      ConnStep view .createRequest c { c with reading := if c.state = .idle then .blocked else .taking }
  | pass {c : ServerConn} (blocks : c.reading = .blocked) (lock : c.Unlocked) :
      ConnStep view .createRequest c { c with reading := .taking }
  | take {c : ServerConn} (takes : c.reading = .taking) (lock : view.free = true) (kept : c.state = .keepalive) :
      ConnStep view .createRequest c { c.listDel with reading := .taken }
  | takeFirst {c : ServerConn} (takes : c.reading = .taking) (lock : view.free = true) (first : c.state = .connected) :
      ConnStep view .createRequest c { c with reading := .taken }
  | takeNone {c : ServerConn} (takes : c.reading = .taking) (lock : view.free = true) (kept : c.state ≠ .keepalive)
      (first : c.state ≠ .connected) :
      ConnStep view .createRequest c { c with reading := .ending .error }
  | newSession {c : ServerConn} (taken : c.reading = .taken) :
      ConnStep view (.newSession true) c
        { c.setSession c.seq ⟨.made, 1, [], none⟩ with reading := .made, session := c.seq, seq := c.seq + 1 }
  | noSession {c : ServerConn} (taken : c.reading = .taken) :
      ConnStep view (.newSession false) c { c with reading := .ending .error }
  | receive {c : ServerConn} (made : c.reading = .made) :
      ConnStep view .createRequest c { c with reading := .counting, state := .receiving }
  | count {c : ServerConn} {b : Bool} (counts : c.reading = .counting) :
      ConnStep view (.messageIn b) c
        { c.setSession c.session { c.sessions c.session with life := .counted } with
          reading := if b then .message else .ending .error, targetRef := c.targetRef + 1 }
  | append {c : ServerConn} (reads : c.reading = .message) :
      ConnStep view .appendRequest c { c with reading := .complete, state := .success }
  | post {c : ServerConn} (done : c.reading = .complete) :
      ConnStep view .pollerResult c { c with reading := .waiting, success := .queued }
  -- the poller's thread elsewhere: `__poller_handle_timeout`, `__poller_handle_pipe`, `__poller_handle_write`
  | timeOut {c : ServerConn} {op : ConnOp} (registered : c.registration = .table op) (runs : c.halted = false)
      (at_event : c.reading = .waiting ∨ c.reading = .message) :
      ConnStep view .pollerResult c { c with reading := .waiting, registration := .queued op .error }
  | pipe {c : ServerConn} {op : ConnOp} (deleted : c.registration = .piped op) (runs : c.halted = false)
      (at_event : c.reading = .waiting ∨ c.reading = .message) :
      ConnStep view .pollerResult c { c with reading := .waiting, registration := .queued op .deleted }
  | write {c : ServerConn} {st : PrSt} (registered : c.registration = .table .write) (runs : c.halted = false)
      (at_event : c.reading = .waiting) (ends : st = .finished ∨ st = .error) :
      ConnStep view .pollerResult c { c with registration := .queued .write st }
  -- `poller_stop`, the thread joined
  | halt {c : ServerConn} (stopping : view.stopFlag = true) (runs : c.halted = false)
      (at_event : c.reading = .waiting ∨ c.reading = .message) :
      ConnStep view .pollerStop c
        { c with halted := true, reading := .waiting, registration := c.registration.stopped }
  | dismiss {c : ServerConn} (replaced : 0 < c.modified) :
      ConnStep view .handleModified c { c with modified := c.modified - 1 }
  -- `handle_incoming_request`
  | pick {c : ServerConn} (queued : c.success = .queued) :
      ConnStep view .handleIncomingRequest c { c with success := .picked c.session }
  | handleComplete {c : ServerConn} {s : Nat} (picked : c.success = .picked s) (lock : c.Unlocked) :
      ConnStep view .handleIncomingRequest c (c.requestComplete s)
  | handleEnded {c : ServerConn} {st : PrSt} (queued : c.registration = .queued .read st) (lock : c.Unlocked) :
      ConnStep view .handleIncomingRequest c (c.requestEnded st)
  | unlink {c : ServerConn} (unlinking : c.registration = .unlinking) (lock : view.free = true) :
      ConnStep view .handleIncomingRequest c c.requestUnlinked
  -- `handle_reply_result`
  | pickWritten {c : ServerConn} {st : PrSt} (queued : c.registration = .queued .write st) :
      ConnStep view .handleReplyResult c { c with registration := .written st c.session }
  | writtenKeep {c : ServerConn} {s : Nat} (written : c.registration = .written .finished s) (lock : c.Unlocked) :
      ConnStep view .handleReplyResult c
        { c with ref := c.ref + 1, registration := .table .read, relinking := some s }
  -- there is no keep-alive timeout, or `mpoller_add` fails
  | writtenClose {c : ServerConn} {s : Nat} (written : c.registration = .written .finished s) :
      ConnStep view .handleReplyResult c (owe { c with registration := .dropped } s .success)
  | writtenFails {c : ServerConn} {st : PrSt} {s : Nat} (written : c.registration = .written st s)
      (fails : st ≠ .finished) :
      ConnStep view .handleReplyResult c (owe { c with registration := .dropped } s (csState st))
  | relink {c : ServerConn} {s : Nat} (relinks : c.relinking = some s) (lock : view.free = true) :
      ConnStep view .handleReplyResult c (c.asyncKept (!view.stopFlag && view.listening) s)
  -- what a thread with a reference of the entry does last
  | call {c : ServerConn} {s : Nat} {st : CsState} (owed : (s, st) ∈ c.due) :
      ConnStep view .callHandle c
        (leave { c.setSession s { c.sessions s with handled := (c.sessions s).handled ++ [st] } with
          due := c.due.erase (s, st) })
  | decref {c : ServerConn} (leaves : 0 < c.leaving) :
      ConnStep view .decref c
        { c with leaving := c.leaving - 1, ref := c.ref - 1, freeing := c.freeing + if c.ref - 1 = 0 then 1 else 0 }
  | release {c : ServerConn} (frees : 0 < c.freeing) :
      ConnStep view .releaseConn c
        { c with freeing := c.freeing - 1, released := c.released + 1, dropping := c.dropping + 1 }
  | dropTarget {c : ServerConn} (drops : 0 < c.dropping) :
      ConnStep view .targetDecref c
        { c with dropping := c.dropping - 1, targetRef := c.targetRef - 1,
                 targetEnd := if c.targetRef - 1 = 0 then .unref else c.targetEnd }
  -- `Communicator::reply`
  | reply {c : ServerConn} {s : Nat} (passive : (c.sessions s).passive = 1) (told : .toreply ∈ (c.sessions s).handled)
      (life : (c.sessions s).life = .counted) (lock : c.Unlocked) (idle : c.inIdle = true) :
      ConnStep view .reply c
        { (c.setSession s { c.sessions s with passive := 2 }).listDel with replying := .found s }
  | replyNone {c : ServerConn} {s : Nat} (passive : (c.sessions s).passive = 1)
      (told : .toreply ∈ (c.sessions s).handled) (life : (c.sessions s).life = .counted) (lock : c.Unlocked)
      (idle : c.inIdle = false) :
      ConnStep view .reply c (c.setSession s { c.sessions s with passive := 2, replied := some false })
  | replyFails {c : ServerConn} {s : Nat} (found : c.replying = .found s) :
      ConnStep view .reply c ({ c.mpollerDel with state := .error, replying := .none }.replies s)
  -- `send_message_sync`, when all is sent
  | sync {c : ServerConn} {s : Nat} {keep : Bool} (found : c.replying = .found s) :
      ConnStep view .sendMessageSync c
        { c with ref := c.ref + 1, replying := if keep then .linking s else .closing s }
  | link {c : ServerConn} {s : Nat} (linking : c.replying = .linking s) (lock : view.free = true) :
      ConnStep view .sendMessageSync c (c.syncKept view.listening s)
  | close {c : ServerConn} {s : Nat} (closing : c.replying = .closing s) :
      ConnStep view .sendMessageSync c
        ((owe { c.mpollerDel with state := .closing, replying := .none } s .success).replies s)
  -- `send_message_async`, with the state `CONN_STATE_IDLE`
  | async {c : ServerConn} {s : Nat} {op : ConnOp} (found : c.replying = .found s)
      (registered : c.registration = .table op) :
      ConnStep view .sendMessageAsync c
        ({ c with registration := .table .write, modified := c.modified + 1, replying := .unlocking }.replies s)
  | unlock {c : ServerConn} (unlocking : c.replying = .unlocking) :
      ConnStep view .sendMessageAsync c { c with replying := .none }
  | asyncGone {c : ServerConn} {s : Nat} (found : c.replying = .found s) (gone : ∀ op, c.registration ≠ .table op) :
      ConnStep view .sendMessageAsync c ({ c with state := .receiving, replying := .none }.replies s)
  -- `~CommSession`
  | destroy {c : ServerConn} {s : Nat} (unused : (c.sessions s).Over) (passive : (c.sessions s).passive = 1)
      (lock : c.Unlocked) :
      ConnStep view .destroySession c
        { (if c.inIdle then c.mpollerDel else c).setSession s { c.sessions s with life := .destroyed } with
          dropping := c.dropping + 1 }
  | destroyReplied {c : ServerConn} {s : Nat} (unused : (c.sessions s).Over) (passive : (c.sessions s).passive ≠ 1) :
      ConnStep view .destroySession c
        { c.setSession s { c.sessions s with life := .destroyed } with dropping := c.dropping + 1 }

end Tinywf
