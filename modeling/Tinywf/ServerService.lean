import Tinywf.ServerRefs
import Mathlib.Data.Finset.Card
/-!
# ServerService — a service, from `bind` to `handle_unbound`

The connections of a service, its listening registration, `service->mutex`, which `drain` holds over several steps,
and `service->ref`.  `alive_list` is the connections that are linked in it: no step goes by their order but `drain`,
which may here begin with any.  The service is bound once and `unbind` called once.

No connection is unlinked twice (`never_unlinked_twice`), none is kept alive behind the `drain` of `shutdown_service`
(`shutdown_leaves_none`), and the service is told that it is unbound once, when no target has a reference of it any more
(`unbound_once`).
-/
namespace Tinywf

open Lts

/-- The registration of the listening socket, or its last result. -/
inductive ListenReg where
  | table
  | piped
  | queued (st : PrSt)
  | handled
deriving DecidableEq

/-- How far `shutdown_service` is. -/
inductive Shutdown where
  | awaited
  | begun
  /-- `listen_fd` is -1. -/
  | closed
  | draining
  | drained
  /-- It gave back the last reference: `handle_unbound` next. -/
  | unbinding
  | done
deriving DecidableEq

/-- A call of `drain` that holds `service->mutex`. -/
structure Drain (ι : Type) where
  max : Int
  cnt : Nat
  /-- The connection whose state is set next. -/
  entry : Option ι
  /-- It is the one of `shutdown_service`. -/
  last : Bool

structure CommService (ι : Type) where
  conns : ι → ServerConn
  listenReg : ListenReg
  /-- `listen_fd >= 0`. -/
  listening : Bool
  stopFlag : Bool
  /-- The poller of the listening socket is stopped. -/
  halted : Bool
  /-- `unbind` was called. -/
  unbind : Bool
  shutdown : Shutdown
  drain : Option (Drain ι)
  ref : Int
  /-- How often `handle_unbound` was called. -/
  unbound : Nat

/-- Before `accept`. -/
def ServerConn.absent : ServerConn where
  birth := .absent
  checking := false
  state := .connected
  ref := 0
  inIdle := false
  inAlive := false
  session := 0
  seq := 0
  reading := .waiting
  registration := .dropped
  halted := false
  modified := 0
  success := .none
  replying := .none
  relinking := none
  draining := false
  due := []
  leaving := 0
  freeing := 0
  released := 0
  misused := false
  sessions := fun _ => .unborn
  targetRef := 0
  dropping := 0
  targetEnd := .none

/-- What `Communicator::accept` makes. -/
def ServerConn.accepted : ServerConn := { ServerConn.absent with birth := .accepted, targetRef := 1 }

/-- What happens to a service, by the function that does it. -/
inductive ServiceAct (ι : Type) where
  | conn (i : ι) (a : ConnAct)
  | accept (i : ι)
  | listenResult
  | pollerStop
  | deinit
  | unbind
  | handleListenResult
  | shutdownService
  | drain (max : Int)
  | decref
  | targetDecref (i : ι)

namespace CommService

variable {ι : Type}

def view (s : CommService ι) : ServiceView := ⟨s.listening, s.stopFlag, s.drain.isNone⟩

/-- What `bind` leaves. -/
def bound : CommService ι where
  conns := fun _ => .absent
  listenReg := .table
  listening := true
  stopFlag := false
  halted := false
  unbind := false
  shutdown := .awaited
  drain := none
  ref := 1
  unbound := 0

variable [DecidableEq ι]

def setConn (s : CommService ι) (i : ι) (c : ServerConn) : CommService ι :=
  { s with conns := Function.update s.conns i c }

end CommService

open CommService

/-- A step of the threads at work on a service. -/
inductive ServiceStep {ι : Type} [DecidableEq ι] : CommService ι → ServiceAct ι → CommService ι → Prop
  | conn {s : CommService ι} {i : ι} {a : ConnAct} {c : ServerConn} (step : ConnStep s.view a (s.conns i) c) :
      ServiceStep s (.conn i a) (s.setConn i c)
  -- the listening registration; a node that is deleted meanwhile may go on accepting
  | accept {s : CommService ι} {i : ι} (registered : s.listenReg = .table ∨ s.listenReg = .piped)
      (runs : s.halted = false)
      (new : (s.conns i).birth = .absent) :
      ServiceStep s (.accept i) { s.setConn i .accepted with ref := s.ref + 1 }
  | listenFails {s : CommService ι} (registered : s.listenReg = .table) (runs : s.halted = false) :
      ServiceStep s .listenResult { s with listenReg := .queued .error }
  | listenDeleted {s : CommService ι} (piped : s.listenReg = .piped) (runs : s.halted = false) :
      ServiceStep s .listenResult { s with listenReg := .queued .deleted }
  | halt {s : CommService ι} (stopping : s.stopFlag = true) (runs : s.halted = false) :
      ServiceStep s .pollerStop
        { s with
          halted := true
          listenReg := match s.listenReg with
            | .table => .queued .stopped
            | .piped => .queued .deleted
            | r => r }
  | deinit {s : CommService ι} : ServiceStep s .deinit { s with stopFlag := true }
  | unbind {s : CommService ι} (first : s.unbind = false) (registered : s.listenReg = .table) :
      ServiceStep s .unbind { s with unbind := true, listenReg := if s.halted then .queued .deleted else .piped }
  | unbindGone {s : CommService ι} (first : s.unbind = false) (gone : s.listenReg ≠ .table) :
      ServiceStep s .unbind { s with unbind := true, shutdown := .begun }
  | handleDeleted {s : CommService ι} (queued : s.listenReg = .queued .deleted) :
      ServiceStep s .handleListenResult { s with listenReg := .handled, shutdown := .begun }
  | handleStop {s : CommService ι} {st : PrSt} (queued : s.listenReg = .queued st) (stops : st ≠ .deleted) :
      ServiceStep s .handleListenResult { s with listenReg := .handled }
  -- `shutdown_service`
  | close {s : CommService ι} (begun : s.shutdown = .begun) :
      ServiceStep s .shutdownService { s with listening := false, shutdown := .closed }
  | drainLast {s : CommService ι} (closed : s.shutdown = .closed) (lock : s.drain = none) :
      ServiceStep s .shutdownService { s with shutdown := .draining, drain := some ⟨-1, 0, none, true⟩ }
  | decref {s : CommService ι} (drained : s.shutdown = .drained) :
      ServiceStep s .decref { s with ref := s.ref - 1, shutdown := if s.ref - 1 = 0 then .unbinding else .done }
  | handleUnbound {s : CommService ι} (unbinding : s.shutdown = .unbinding) :
      ServiceStep s .decref { s with unbound := s.unbound + 1, shutdown := .done }
  -- `CommService::drain`
  | drainLock {s : CommService ι} {max : Int} (lock : s.drain = none) :
      ServiceStep s (.drain max) { s with drain := some ⟨max, 0, none, false⟩ }
  | drainTake {s : CommService ι} {d : Drain ι} {i : ι} (drains : s.drain = some d) (at_loop : d.entry = none)
      (more : (d.cnt : Int) ≠ d.max) (alive : (s.conns i).inAlive = true) :
      ServiceStep s (.drain d.max)
        { s.setConn i (s.conns i).drainTaken with drain := some { d with cnt := d.cnt + 1, entry := some i } }
  | drainSet {s : CommService ι} {d : Drain ι} {i : ι} (drains : s.drain = some d) (taken : d.entry = some i) :
      ServiceStep s (.drain d.max)
        { s.setConn i (s.conns i).drainClosed with drain := some { d with entry := none } }
  | drainUnlock {s : CommService ι} {d : Drain ι} (drains : s.drain = some d) (at_loop : d.entry = none)
      (ends : (d.cnt : Int) = d.max ∨ ∀ i, (s.conns i).inAlive = false) :
      ServiceStep s (.drain d.max)
        { s with drain := none, shutdown := if d.last then .drained else s.shutdown }
  -- `CommServiceTarget::decref`, behind the last reference of a target
  | targetUnref {s : CommService ι} {i : ι} (unref : (s.conns i).targetEnd = .unref) :
      ServiceStep s (.targetDecref i)
        { s.setConn i { s.conns i with targetEnd := if s.ref - 1 = 0 then .unbinding else .deleting } with
          ref := s.ref - 1 }
  | targetUnbound {s : CommService ι} {i : ι} (unbinding : (s.conns i).targetEnd = .unbinding) :
      ServiceStep s (.targetDecref i)
        { s.setConn i { s.conns i with targetEnd := .deleting } with unbound := s.unbound + 1 }
  | targetDeleted {s : CommService ι} {i : ι} (deleting : (s.conns i).targetEnd = .deleting) :
      ServiceStep s (.targetDecref i) (s.setConn i { s.conns i with targetEnd := .deleted })

/-! ## The places of its connections -/

section

variable {ι : Type} {s s' : CommService ι} {a : ServiceAct ι} {i : ι} {nulls : Bool}

namespace CommService

variable [DecidableEq ι]

@[simp] theorem setConn_self (s : CommService ι) (i : ι) (c : ServerConn) : (s.setConn i c).conns i = c :=
  Function.update_self ..

theorem setConn_of_ne (s : CommService ι) {i j : ι} (h : j ≠ i) (c : ServerConn) :
    (s.setConn i c).conns j = s.conns j :=
  Function.update_of_ne h ..

/-- What holds of all connections holds of them when it holds of the one that moves. -/
theorem setConn_all {P : ServerConn → Prop} {c : ServerConn} (h : ∀ j, P (s.conns j)) (hc : P c) (j : ι) :
    P ((s.setConn i c).conns j) := by
  by_cases hj : j = i
  · subst hj
    rw [setConn_self]
    exact hc
  · rw [setConn_of_ne _ hj]
    exact h j

theorem setConn_iff {P : ServerConn → Prop} {c : ServerConn} (h : P c ↔ P (s.conns i)) (j : ι) :
    P ((s.setConn i c).conns j) ↔ P (s.conns j) := by
  by_cases hj : j = i
  · subst hj
    rw [setConn_self]
    exact h
  · rw [setConn_of_ne _ hj]

end CommService

/-- Every connection is in its place, and only the one that `drain` is at is drained. -/
structure ServiceOk (nulls : Bool) (s : CommService ι) : Prop where
  conns : ∀ i, ConnOk nulls (s.conns i)
  draining : ∀ i, (s.conns i).draining = true ↔ ∃ d, s.drain = some d ∧ d.entry = some i

theorem ConnOk.absent : ConnOk nulls .absent :=
  ⟨⟨_, none, _, _, .ended (s := .connected) nofun, rfl, rfl, rfl, rfl⟩, fun h => absurd rfl h, nofun,
    fun _ => ⟨rfl, rfl⟩, nofun, fun _ => rfl⟩

theorem ConnOk.accepted : ConnOk nulls .accepted :=
  ⟨⟨_, none, _, _, .ended (s := .connected) nofun, rfl, rfl, rfl, rfl⟩, fun h => absurd rfl h, nofun,
    fun _ => ⟨rfl, rfl⟩, nofun, fun _ => rfl⟩

namespace ServiceOk

theorem bound : ServiceOk nulls (CommService.bound : CommService ι) :=
  ⟨fun _ => .absent, fun _ => ⟨nofun, nofun⟩⟩

theorem free (h : ServiceOk nulls s) (i : ι) (lock : s.view.free = true) : (s.conns i).draining = false := by
  by_contra hd
  obtain ⟨d, hs, -⟩ := (h.draining i).1 (by simpa using hd)
  unfold CommService.view at lock
  rw [hs] at lock
  cases lock

/-- A connection moves, and `drain` stays where it is. -/
theorem moved [DecidableEq ι] (h : ServiceOk nulls s) {c : ServerConn} (conns : s'.conns = Function.update s.conns i c)
    (drain : s'.drain = s.drain) (hc : ConnOk nulls c) (draining : c.draining = (s.conns i).draining) :
    ServiceOk nulls s' := by
  have hconns : s'.conns = (s.setConn i c).conns := conns
  refine ⟨fun j => ?_, fun j => ?_⟩ <;> rw [hconns]
  · exact CommService.setConn_all h.conns hc j
  · rw [drain]
    by_cases hj : j = i
    · subst hj
      rw [CommService.setConn_self, draining]
      exact h.draining j
    · rw [CommService.setConn_of_ne _ hj]
      exact h.draining j

theorem frame (h : ServiceOk nulls s) (conns : s'.conns = s.conns) (drain : s'.drain = s.drain) : ServiceOk nulls s' :=
  ⟨fun i => conns ▸ h.conns i, fun i => by rw [conns, drain]; exact h.draining i⟩

/-- `drain` is at no connection. -/
theorem relock (h : ServiceOk nulls s) {d : Option (Drain ι)} (before : ∀ e ∈ s.drain, e.entry = none)
    (entry : ∀ e ∈ d, e.entry = none) (conns : s'.conns = s.conns) (drain : s'.drain = d) : ServiceOk nulls s' := by
  refine ⟨fun i => conns ▸ h.conns i, fun i => ?_⟩
  rw [conns, drain, h.draining i]
  constructor
  · rintro ⟨e, he, hi⟩
    rw [before e he] at hi
    cases hi
  · rintro ⟨e, he, hi⟩
    rw [entry e he] at hi
    cases hi

end ServiceOk

/-- **Every step of a service keeps its connections in their places.** -/
theorem ServiceStep.ok [DecidableEq ι] (h : ServiceOk nulls s)
    (null : ∀ i, a = .conn i (.newSession false) → (s.conns i).state = .connected ∨ nulls = true)
    (step : ServiceStep s a s') : ServiceOk nulls s' := by
  cases step with
  | @conn i b c step =>
    exact h.moved rfl rfl (step.ok (h.conns i) (h.free i) fun hb => null i (by rw [hb])) step.draining_eq
  | @accept i registered runs new =>
    have hd : (s.conns i).draining = false :=
      congrArg ConnMarks.draining ((h.conns i).unregistered (by rw [new]; nofun)).2
    exact h.moved rfl rfl .accepted hd.symm
  | listenFails registered runs => exact h.frame rfl rfl
  | listenDeleted piped runs => exact h.frame rfl rfl
  | halt stopping runs => exact h.frame rfl rfl
  | deinit => exact h.frame rfl rfl
  | unbind first registered => exact h.frame rfl rfl
  | unbindGone first gone => exact h.frame rfl rfl
  | handleDeleted queued => exact h.frame rfl rfl
  | handleStop queued stops => exact h.frame rfl rfl
  | close begun => exact h.frame rfl rfl
  | drainLast closed lock => exact h.relock (by rw [lock]; nofun) (by rintro _ ⟨⟩; rfl) rfl rfl
  | decref drained => exact h.frame rfl rfl
  | handleUnbound unbinding => exact h.frame rfl rfl
  | drainLock lock => exact h.relock (by rw [lock]; nofun) (by rintro _ ⟨⟩; rfl) rfl rfl
  | @drainTake d i drains at_loop more alive =>
    refine ⟨CommService.setConn_all h.conns ((h.conns i).drainTaken alive), fun j => ?_⟩
    by_cases hj : j = i
    · subst hj
      exact ⟨fun _ => ⟨_, rfl, rfl⟩, fun _ => congrArg ServerConn.draining (setConn_self s j _)⟩
    · have hno : (s.conns j).draining ≠ true := fun hd => by
        obtain ⟨e, he, hi⟩ := (h.draining j).1 hd
        rw [drains] at he
        cases he
        rw [at_loop] at hi
        cases hi
      have hconn : ((s.setConn i (s.conns i).drainTaken).conns j).draining = (s.conns j).draining := by
        rw [setConn_of_ne s hj]
      refine ⟨fun hd => absurd (hconn.symm.trans hd) hno, ?_⟩
      rintro ⟨e, ⟨⟩, hi⟩
      exact absurd (Option.some.inj hi).symm hj
  | @drainSet d i drains taken =>
    have hd := (h.draining i).2 ⟨d, drains, taken⟩
    refine ⟨CommService.setConn_all h.conns ((h.conns i).drainClosed hd), fun j => ?_⟩
    constructor
    · intro hj
      by_cases hi : j = i
      · subst hi
        have hnone : ((s.setConn j (s.conns j).drainClosed).conns j).draining = false := by
          rw [setConn_self]
          rfl
        exact absurd (hnone.symm.trans hj) nofun
      · have hconn : ((s.setConn i (s.conns i).drainClosed).conns j).draining = (s.conns j).draining := by
          rw [setConn_of_ne s hi]
        obtain ⟨e, he, hji⟩ := (h.draining j).1 (hconn.symm.trans hj)
        rw [drains] at he
        cases he
        rw [taken] at hji
        exact absurd (Option.some.inj hji).symm hi
    · rintro ⟨e, ⟨⟩, hi⟩
      cases hi
  | drainUnlock drains at_loop ends =>
    refine h.relock (d := none) (fun e he => ?_) nofun rfl rfl
    rw [drains] at he
    cases he
    exact at_loop
  | targetUnref unref => exact h.moved rfl rfl ((h.conns _).frame rfl rfl rfl rfl rfl rfl rfl) rfl
  | targetUnbound unbinding => exact h.moved rfl rfl ((h.conns _).frame rfl rfl rfl rfl rfl rfl rfl) rfl
  | targetDeleted deleting => exact h.moved rfl rfl ((h.conns _).frame rfl rfl rfl rfl rfl rfl rfl) rfl

/-! ## No connection is unlinked twice -/

/-- `create_request` is at work. -/
def Reading.creates : Reading → Bool
  | waiting => false
  | creating => true
  | blocked => true
  | taking => true
  | taken => true
  | made => true
  | counting => true
  | message => false
  | complete => false
  | ending _ => false

/-- `new_session` may have no session for the first request of a connection, but has one for an entry that was kept
alive. -/
def SessionForKept (s : CommService ι) (a : ServiceAct ι) : Prop :=
  ∀ i, a = .conn i (.newSession false) → (s.conns i).state = .connected

theorem Reading.phase_of_creates {r : Reading} (h : r.creates = false) : r.phase ≠ .first := by
  intro hp
  cases r <;> first | (cases h; done) | cases hp

/-- **Each `list_del` of an entry finds it in one list**, and while `service->mutex` is free and `create_request` not at
work, an entry that the poller has, or whose last result is to come, is in `alive_list` exactly when it is
`CONN_STATE_KEEPALIVE`. -/
theorem never_unlinked_twice [DecidableEq ι] (run : Reaches ServiceStep SessionForKept (.bound : CommService ι) s)
    (i : ι) :
    (s.conns i).misused = false ∧
      ((s.conns i).inAlive = true → (s.conns i).state = .keepalive ∧ (s.conns i).inIdle = false) ∧
      (s.drain = none → (s.conns i).reading.creates = false →
        ((s.conns i).state = .keepalive ∧ (s.conns i).registration ≠ .dropped ↔ (s.conns i).inAlive = true)) := by
  have hok : ServiceOk false s := run.keeps (fun s a s' h null step => step.ok h fun i ha => .inl (null i ha)) .bound
  have hconn := hok.conns i
  refine ⟨hconn.misused rfl, fun ha => ?_, fun lock hcreates => ⟨?_, fun ha => ?_⟩⟩
  · obtain ⟨k, -, here⟩ := hconn.placed.of_alive ha
    exact ⟨here.state, congrArg ConnMarks.idle here.marks⟩
  · rintro ⟨hs, hr⟩
    have hd : (s.conns i).draining = false := hok.free i (by unfold CommService.view; rw [lock]; rfl)
    exact hconn.placed.alive_of_keepalive hs hr hd (Reading.phase_of_creates hcreates)
  · obtain ⟨k, hk, here⟩ := hconn.placed.of_alive ha
    refine ⟨here.state, fun hd => ?_⟩
    have hkind := here.kind
    rw [hd] at hkind
    rcases hk with rfl | rfl <;> cases hkind

end

/-! ### One connection -/

/-- What happens to a connection happens in its service. -/
theorem CommService.reaches_conn {ι : Type} [DecidableEq ι] {s₀ s : CommService ι} {i : ι} {c : ServerConn}
    {ok : ServerConn → ConnAct → Prop} {meets : CommService ι → ServiceAct ι → Prop}
    (before : Reaches ServiceStep meets s₀ s) (lift : ∀ c a, ok c a → meets (s.setConn i c) (.conn i a))
    (run : Reaches (fun c a c' => ConnStep s.view a c c') ok (s.conns i) c) :
    Reaches ServiceStep meets s₀ (s.setConn i c) := by
  induction run with
  | start =>
    have hsame : s.setConn i (s.conns i) = s := by
      unfold CommService.setConn
      rw [Function.update_eq_self]
    rw [hsame]
    exact before
  | @next c c' a _ okay taken ih =>
    have hconn : (s.setConn i c).conns i = c := CommService.setConn_self s i c
    have hstep : ServiceStep (s.setConn i c) (.conn i a) ((s.setConn i c).setConn i c') :=
      .conn (by rw [hconn]; exact taken)
    have hidem : (s.setConn i c).setConn i c' = s.setConn i c' := by
      unfold CommService.setConn
      dsimp only
      rw [Function.update_idem]
    rw [hidem] at hstep
    exact ih.next (lift c a okay) hstep

/-- A run of one connection, of a service that listens. -/
abbrev ConnRun (ok : ServerConn → ConnAct → Prop) : ServerConn → ServerConn → Prop :=
  Reaches (fun c a c' => ConnStep ⟨true, false, true⟩ a c c') ok

/-- There is a session for every request. -/
abbrev SessionForAll (_ : ServerConn) (a : ConnAct) : Prop := a ≠ .newSession false

/-- A reply has kept a connection alive. -/
structure KeptAlive (c : ServerConn) : Prop where
  state : c.state = .keepalive
  idle : c.inIdle = false
  alive : c.inAlive = true
  registration : c.registration = .table .read
  runs : c.halted = false
  reading : c.reading = .waiting
  lock : c.Unlocked

/-- A reply is sent whose connection is to be kept alive. -/
structure ToKeep (c : ServerConn) : Prop where
  replying : c.replying = .linking 0
  relinking : c.relinking = none
  idle : c.inIdle = false
  alive : c.inAlive = false
  registration : c.registration = .table .read
  runs : c.halted = false
  reading : c.reading = .waiting

theorem ConnRun.toKeep : ∃ c, ConnRun SessionForAll .accepted c ∧ ToKeep c := by
  have accepted : ConnRun SessionForAll .accepted .accepted := .start
  have added := ((accepted.next (by decide) (.enter rfl)).next (by decide) (.add rfl)).next (by decide) (.check rfl)
  -- the request
  have created := ((added.next (by decide) (.read (.inl rfl) rfl rfl)).next (by decide) (.look rfl)).next (by decide)
    (.takeFirst rfl rfl rfl)
  have received := ((created.next (by decide) (.newSession rfl)).next (by decide) (.receive rfl)).next (by decide)
    (@ConnStep.count _ _ true rfl)
  have complete := (received.next (by decide) (.append rfl)).next (by decide) (.post rfl)
  have idle := (complete.next (by decide) (.pick rfl)).next (by decide) (.handleComplete rfl ⟨rfl, rfl, nofun⟩)
  -- the reply
  have told := idle.next (by decide) (@ConnStep.call _ _ 0 .toreply (by decide))
  have replied := told.next (by decide) (@ConnStep.reply _ _ 0 rfl (by decide) rfl ⟨rfl, rfl, nofun⟩ rfl)
  have sent := replied.next (by decide) (@ConnStep.sync _ _ 0 true rfl)
  exact ⟨_, sent, rfl, rfl, rfl, rfl, rfl, rfl, rfl⟩

theorem ConnRun.kept : ∃ c, ConnRun SessionForAll .accepted c ∧ KeptAlive c := by
  obtain ⟨c, sent, replying, relinking, idle, -, registration, runs, reading⟩ := ConnRun.toKeep
  have kept := sent.next (by nofun) (.link replying rfl)
  refine ⟨_, kept, rfl, idle, rfl, registration, runs, reading, rfl, relinking, fun hr => ?_⟩
  exact absurd (registration.symm.trans hr) nofun

/-- It is closed by its client: the entry is in no list, and has the state of one that is kept alive until it is
released. -/
theorem KeptAlive.closed {c : ServerConn} (h : KeptAlive c) : ∃ c', ConnRun SessionForAll c c' ∧
    c'.state = .keepalive ∧ c'.inAlive = false ∧ c'.registration = .dropped ∧ c'.reading = .waiting := by
  obtain ⟨hs, -, -, hr, runs, hw, hreplying, hrelinking, -⟩ := h
  have kept : ConnRun SessionForAll c c := .start
  cases c
  dsimp only at hs hr runs hw hreplying hrelinking
  subst hs hr runs hw hreplying hrelinking
  have ended := (kept.next (by nofun) (.readFails (.inl rfl) rfl (.inl rfl) (.inl rfl))).next (by nofun)
    (.remove rfl)
  have unlinked := (ended.next (by nofun) (.handleEnded rfl ⟨rfl, rfl, nofun⟩)).next (by nofun) (.unlink rfl rfl)
  exact ⟨_, unlinked, rfl, rfl, rfl, rfl⟩

/-- There is no session for its next request: its last result unlinks the entry once more. -/
theorem KeptAlive.unlinked_twice {c : ServerConn} (h : KeptAlive c) :
    ∃ c', ConnRun always c c' ∧ c'.misused = true := by
  obtain ⟨hs, hi, ha, hr, runs, hw, hreplying, hrelinking, -⟩ := h
  have kept : ConnRun always c c := .start
  cases c
  dsimp only at hs hi ha hr runs hw hreplying hrelinking
  subst hs hi ha hr runs hw hreplying hrelinking
  have created := ((kept.next trivial (.read (.inl rfl) rfl rfl)).next trivial (.look rfl)).next trivial
    (.take rfl rfl rfl)
  have ended := (created.next trivial (.noSession rfl)).next trivial (.remove rfl)
  have unlinked := (ended.next trivial (.handleEnded rfl ⟨rfl, rfl, nofun⟩)).next trivial (.unlink rfl rfl)
  exact ⟨_, unlinked, Bool.or_true _⟩

/-- The service of one connection, as it is accepted. -/
theorem accepted_run {meets : CommService Unit → ServiceAct Unit → Prop} (okay : meets .bound (.accept ())) :
    Reaches ServiceStep meets .bound { CommService.bound.setConn () .accepted with ref := 2 } :=
  .next .start okay (.accept (.inl rfl) rfl rfl)

theorem sessionForKept_of_all (s : CommService Unit) (c : ServerConn) (a : ConnAct) (h : SessionForAll c a) :
    SessionForKept (s.setConn () c) (.conn () a) := fun j hj => by
  cases hj
  exact absurd rfl h

/-- A connection that was kept alive is closed by its client. -/
theorem closed_run : ∃ s : CommService Unit, Reaches ServiceStep SessionForKept .bound s ∧ s.drain = none ∧
    (s.conns ()).reading.creates = false ∧ (s.conns ()).state = .keepalive ∧ (s.conns ()).inAlive = false := by
  obtain ⟨c, run, hc⟩ := ConnRun.kept
  obtain ⟨c', run', hs, ha, -, hw⟩ := hc.closed
  exact ⟨_, CommService.reaches_conn (i := ()) (accepted_run nofun) (sessionForKept_of_all _) (run.trans run'), rfl,
    (congrArg Reading.creates hw).trans rfl, hs, ha⟩

theorem never_unlinked_twice_closed : ∃ s : CommService Unit, Reaches ServiceStep SessionForKept .bound s ∧
    (s.conns ()).state = .keepalive ∧ (s.conns ()).registration = .dropped ∧ (s.conns ()).misused = false := by
  obtain ⟨s, run, lock, hr, hs, ha⟩ := closed_run
  obtain ⟨hmisused, -, hkept⟩ := never_unlinked_twice run ()
  refine ⟨s, run, hs, ?_, hmisused⟩
  by_contra hd
  exact absurd (ha.symm.trans ((hkept lock hr).1 ⟨hs, hd⟩)) nofun

/-- **An entry may be unlinked twice, and may be `CONN_STATE_KEEPALIVE` and in no list**: the one when there is no
session for an entry that was kept alive, the other with no one at work on it. -/
theorem keepalive_unlinked :
    (¬ ∀ s : CommService Unit, Reaches ServiceStep always .bound s → (s.conns ()).misused = false) ∧
      ¬ ∀ s : CommService Unit, Reaches ServiceStep SessionForKept .bound s → s.drain = none →
        (s.conns ()).reading.creates = false → ((s.conns ()).state = .keepalive ↔ (s.conns ()).inAlive = true) := by
  refine ⟨fun h => ?_, fun h => ?_⟩
  · obtain ⟨c, run, hc⟩ := ConnRun.kept
    obtain ⟨c', run', hmisused⟩ := hc.unlinked_twice
    have hfalse := h _ (CommService.reaches_conn (i := ()) (accepted_run trivial) (fun _ _ _ => trivial)
      (run.anyway.trans run'))
    exact absurd (hfalse.symm.trans hmisused) nofun
  · obtain ⟨s, run, lock, hr, hs, ha⟩ := closed_run
    exact absurd (ha.symm.trans ((h s run lock hr).1 hs)) nofun

/-! ## No connection is kept alive behind `shutdown_service` -/

section

variable {ι : Type} {s s' : CommService ι} {a : ServiceAct ι}

/-- The `drain` of `shutdown_service` is back. -/
def CommService.Drained (s : CommService ι) : Prop :=
  s.shutdown = .drained ∨ s.shutdown = .unbinding ∨ s.shutdown = .done

/-- `shutdown_service` is called once, and `listen_fd` is -1 from its first step on. -/
structure ShutOnce (s : CommService ι) : Prop where
  awaited : s.unbind = false → s.shutdown = .awaited ∧ s.listenReg ≠ .piped ∧ s.listenReg ≠ .queued .deleted
  before : s.listenReg = .table ∨ s.listenReg = .piped ∨ s.listenReg = .queued .deleted → s.shutdown = .awaited
  closed : s.shutdown ≠ .awaited → s.shutdown ≠ .begun → s.listening = false
  last : ∀ d ∈ s.drain, d.last = true → s.shutdown = .draining ∧ d.max = -1
  drained : s.Drained → ∀ i, (s.conns i).inAlive = false

namespace ShutOnce

theorem bound : ShutOnce (CommService.bound : CommService ι) :=
  ⟨fun _ => ⟨rfl, nofun, nofun⟩, fun _ => rfl, fun h => absurd rfl h, nofun, by rintro (h | h | h) <;> cases h⟩

theorem started (h : ShutOnce s) (drained : s.Drained) : s.listening = false := by
  refine h.closed ?_ ?_ <;> rcases drained with hd | hd | hd <;> rw [hd] <;> nofun

/-- Its connections move. -/
theorem moved [DecidableEq ι] (h : ShutOnce s) {i : ι} {c : ServerConn} (conns : s'.conns = Function.update s.conns i c)
    (alive : s.Drained → c.inAlive = true → (s.conns i).inAlive = true) (unbind : s'.unbind = s.unbind)
    (shutdown : s'.shutdown = s.shutdown) (listenReg : s'.listenReg = s.listenReg)
    (listening : s'.listening = s.listening)
    (last : ∀ d ∈ s'.drain, d.last = true → s.shutdown = .draining ∧ d.max = -1) : ShutOnce s' where
  awaited := by rw [unbind, shutdown, listenReg]; exact h.awaited
  before := by rw [shutdown, listenReg]; exact h.before
  closed := by rw [shutdown, listening]; exact h.closed
  last := by rw [shutdown]; exact last
  drained hd := by
    have hd' : s.Drained := by
      unfold CommService.Drained
      rw [← shutdown]
      exact hd
    rw [conns]
    refine CommService.setConn_all (P := fun c => c.inAlive = false) (h.drained hd') ?_
    by_contra ha
    exact absurd ((h.drained hd' i).symm.trans (alive hd' (by simpa using ha))) nofun

/-- `shutdown_service` goes on behind its `drain`. -/
theorem later (h : ShutOnce s) (begun : s.shutdown = .draining ∨ s.Drained) (conns : s'.conns = s.conns)
    (unbind : s'.unbind = s.unbind) (listenReg : s'.listenReg = s.listenReg) (listening : s'.listening = s.listening)
    (last : ∀ d ∈ s'.drain, d.last = false) (alive : ∀ i, (s.conns i).inAlive = false) : ShutOnce s' := by
  have hlate : s.shutdown ≠ .awaited ∧ s.shutdown ≠ .begun := by
    constructor <;> rcases begun with hb | hb | hb | hb <;> rw [hb] <;> nofun
  refine ⟨fun hu => ?_, fun hr => ?_, fun _ _ => ?_, fun d hd hl => ?_, fun _ => ?_⟩
  · rw [unbind] at hu
    exact absurd (h.awaited hu).1 hlate.1
  · rw [listenReg] at hr
    exact absurd (h.before hr) hlate.1
  · rw [listening]
    exact h.closed hlate.1 hlate.2
  · exact absurd ((last d hd).symm.trans hl) nofun
  · rw [conns]
    exact alive

/-- The listening registration ends, or its result is handled. -/
theorem listen (h : ShutOnce s) {r : ListenReg} (awaited : s.unbind = false → r ≠ .piped ∧ r ≠ .queued .deleted)
    (before : r = .table ∨ r = .piped ∨ r = .queued .deleted → s.shutdown = .awaited) :
    ShutOnce { s with listenReg := r } :=
  ⟨fun hu => ⟨(h.awaited hu).1, awaited hu⟩, before, h.closed, h.last, h.drained⟩

end ShutOnce

theorem ServiceStep.shut [DecidableEq ι] (h : ShutOnce s) (step : ServiceStep s a s') : ShutOnce s' := by
  cases step with
  | conn step =>
    exact h.moved rfl (fun hd => (step.not_kept (h.started hd)).1) rfl rfl rfl rfl h.last
  | accept registered runs new =>
    exact h.moved rfl (fun _ => nofun) rfl rfl rfl rfl h.last
  | listenFails registered runs => exact h.listen (fun _ => ⟨nofun, nofun⟩) (by rintro (hr | hr | hr) <;> cases hr)
  | listenDeleted piped runs =>
    exact h.listen (fun hu => absurd piped (h.awaited hu).2.1) fun _ => h.before (.inr (.inl piped))
  | halt stopping runs =>
    have hlisten := h.listen (r := match s.listenReg with
      | .table => .queued .stopped
      | .piped => .queued .deleted
      | r => r) (fun hu => ?_) fun hr => ?_
    · exact ⟨hlisten.awaited, hlisten.before, hlisten.closed, hlisten.last, hlisten.drained⟩
    · obtain ⟨-, hp, hq⟩ := h.awaited hu
      split
      · exact ⟨nofun, nofun⟩
      · exact absurd ‹_› hp
      · exact ⟨hp, hq⟩
    · refine h.before ?_
      split at hr
      · exact .inl ‹_›
      · exact .inr (.inl ‹_›)
      · exact hr
  | deinit => exact ⟨h.awaited, h.before, h.closed, h.last, h.drained⟩
  | unbind first registered =>
    exact ⟨nofun, fun _ => h.before (.inl registered), h.closed, h.last, h.drained⟩
  | unbindGone first gone =>
    obtain ⟨hs, hp, hq⟩ := h.awaited first
    refine ⟨nofun, fun hr => ?_, fun _ hb => absurd rfl hb, fun d hd hl => ?_, by rintro (hd | hd | hd) <;> cases hd⟩
    · rcases hr with hr | hr | hr
      · exact absurd hr gone
      · exact absurd hr hp
      · exact absurd hr hq
    · exact absurd (hs.symm.trans (h.last d hd hl).1) nofun
  | handleDeleted queued =>
    have hs := h.before (.inr (.inr queued))
    refine ⟨fun hu => absurd queued (h.awaited hu).2.2, (by rintro (hr | hr | hr) <;> cases hr),
      fun _ hb => absurd rfl hb,
      fun d hd hl => ?_, by rintro (hd | hd | hd) <;> cases hd⟩
    exact absurd (hs.symm.trans (h.last d hd hl).1) nofun
  | handleStop queued stops => exact h.listen (fun _ => ⟨nofun, nofun⟩) (by rintro (hr | hr | hr) <;> cases hr)
  | close begun =>
    refine ⟨fun hu => ?_, fun hr => ?_, fun _ _ => rfl, fun d hd hl => ?_, by rintro (hd | hd | hd) <;> cases hd⟩
    · exact absurd (begun.symm.trans (h.awaited hu).1) nofun
    · exact absurd (begun.symm.trans (h.before hr)) nofun
    · exact absurd (begun.symm.trans (h.last d hd hl).1) nofun
  | drainLast closed lock =>
    refine ⟨fun hu => ?_, fun hr => ?_, fun _ _ => h.closed (by rw [closed]; nofun) (by rw [closed]; nofun), ?_,
      by rintro (hd | hd | hd) <;> cases hd⟩
    · exact absurd (closed.symm.trans (h.awaited hu).1) nofun
    · exact absurd (closed.symm.trans (h.before hr)) nofun
    · rintro d ⟨⟩ -
      exact ⟨rfl, rfl⟩
  | decref drained =>
    refine h.later (.inr (.inl drained)) rfl rfl rfl rfl (fun d hd => ?_) (h.drained (.inl drained))
    by_contra hl
    exact absurd (drained.symm.trans (h.last d hd (by simpa using hl)).1) nofun
  | handleUnbound unbinding =>
    refine h.later (.inr (.inr (.inl unbinding))) rfl rfl rfl rfl (fun d hd => ?_) (h.drained (.inr (.inl unbinding)))
    by_contra hl
    exact absurd (unbinding.symm.trans (h.last d hd (by simpa using hl)).1) nofun
  | drainLock lock =>
    refine ⟨h.awaited, h.before, h.closed, ?_, h.drained⟩
    rintro d ⟨⟩ hl
    cases hl
  | @drainTake d i drains at_loop more alive =>
    refine h.moved rfl (fun _ => nofun) rfl rfl rfl rfl ?_
    rintro _ ⟨⟩ hl
    exact h.last d drains hl
  | @drainSet d i drains taken =>
    refine h.moved rfl (fun _ => id) rfl rfl rfl rfl ?_
    rintro _ ⟨⟩ hl
    exact h.last d drains hl
  | @drainUnlock d drains at_loop ends =>
    cases hl : d.last with
    | true =>
      obtain ⟨hdraining, hmax⟩ := h.last d drains hl
      exact h.later (.inl hdraining) rfl rfl rfl rfl nofun (ends.resolve_left (by omega))
    | false => exact ⟨h.awaited, h.before, h.closed, nofun, h.drained⟩
  | targetUnref unref => exact h.moved rfl (fun _ => id) rfl rfl rfl rfl h.last
  | targetUnbound unbinding => exact h.moved rfl (fun _ => id) rfl rfl rfl rfl h.last
  | targetDeleted deleting => exact h.moved rfl (fun _ => id) rfl rfl rfl rfl h.last

/-- What `shutdown_service` has done stays done. -/
theorem ServiceStep.drained [DecidableEq ι] (h : ShutOnce s) (hd : s.Drained) (step : ServiceStep s a s') :
    s'.Drained := by
  cases step with
  | unbindGone first gone =>
    have hs := (h.awaited first).1
    rcases hd with hd | hd | hd <;> exact absurd (hs.symm.trans hd) nofun
  | handleDeleted queued =>
    have hs := h.before (.inr (.inr queued))
    rcases hd with hd | hd | hd <;> exact absurd (hs.symm.trans hd) nofun
  | close begun => rcases hd with hd | hd | hd <;> exact absurd (begun.symm.trans hd) nofun
  | drainLast closed lock => rcases hd with hd | hd | hd <;> exact absurd (closed.symm.trans hd) nofun
  | decref drained =>
    unfold CommService.Drained
    dsimp only
    split
    · exact .inr (.inl rfl)
    · exact .inr (.inr rfl)
  | handleUnbound unbinding => exact .inr (.inr rfl)
  | @drainUnlock d drains at_loop ends =>
    cases hl : d.last with
    | true => exact .inl rfl
    | false => exact hd
  | _ => exact hd

/-- A completed reply does not keep the connection alive but has it taken out of the poller, to be closed. -/
structure TurnsAway (view : ServiceView) (c : ServerConn) : Prop where
  kept : ∀ a c', ConnStep view a c c' → c'.state = .keepalive → c.state = .keepalive
  async : ∀ x c', ConnStep view .handleReplyResult c c' → c.relinking = some x → c'.relinking = none →
    c'.state = .closing ∧ c'.inAlive = c.inAlive ∧ c'.registration = c.registration.deleted c.halted
  sync : ∀ x c', ConnStep view .sendMessageSync c c' → c.replying = .linking x → c' = { c with replying := .closing x }
  close : ∀ x c', ConnStep view .sendMessageSync c c' → c.replying = .closing x →
    c'.state = .closing ∧ c'.inAlive = c.inAlive ∧ c'.registration = c.registration.deleted c.halted

theorem TurnsAway.of_closed {view : ServiceView} (closed : view.listening = false) (c : ServerConn) :
    TurnsAway view c where
  kept a c' step := (step.not_kept closed).2
  async x c' step hx hnone := by
    cases step with
    | relink relinks lock =>
      rw [closed, Bool.and_false]
      exact ⟨rfl, rfl, rfl⟩
    | writtenKeep written lock => cases hnone
    | pickWritten queued => exact absurd (hx.symm.trans hnone) nofun
    | writtenClose written => exact absurd (hx.symm.trans hnone) nofun
    | writtenFails written fails => exact absurd (hx.symm.trans hnone) nofun
  sync x c' step hx := by
    cases step with
    | link linking lock =>
      rw [linking] at hx
      cases hx
      rw [closed]
      rfl
    | sync found => exact absurd (found.symm.trans hx) nofun
    | close closing => exact absurd (closing.symm.trans hx) nofun
  close x c' step hx := by
    cases step with
    | close closing => exact ⟨rfl, rfl, rfl⟩
    | sync found => exact absurd (found.symm.trans hx) nofun
    | link linking lock => exact absurd (linking.symm.trans hx) nofun

/-- **No connection is kept alive once the `drain` of `shutdown_service` is back**, whatever completes then. -/
theorem shutdown_leaves_none [DecidableEq ι] (run : Reaches ServiceStep always (.bound : CommService ι) s)
    (drained : s.Drained) (later : Reaches ServiceStep always s s') (i : ι) :
    s'.Drained ∧ (s'.conns i).inAlive = false ∧ TurnsAway s'.view (s'.conns i) := by
  have hshut : ∀ t, Reaches ServiceStep always s t → ShutOnce t := fun t later =>
    (run.trans later).keeps (fun s a s' h _ step => step.shut h) .bound
  have hdrained : s'.Drained :=
    later.keeps_of hshut (fun s a s' h hd _ step => step.drained h hd) drained
  exact ⟨hdrained, (hshut _ later).drained hdrained i, .of_closed ((hshut _ later).started hdrained) _⟩

end

/-- The service has no socket any more: the connection is taken out of the poller. -/
theorem ToKeep.turned_away {c : ServerConn} (h : ToKeep c) :
    ∃ c', Reaches (fun c a c' => ConnStep ⟨false, false, true⟩ a c c') always c c' ∧ c'.state = .closing ∧
      c'.registration = .piped .read := by
  have sent : Reaches (fun c a c' => ConnStep ⟨false, false, true⟩ a c c') always c c := .start
  have refused := sent.next trivial (.link h.replying rfl)
  refine ⟨_, refused.next trivial (.close rfl), rfl, ?_⟩
  show c.registration.deleted c.halted = _
  rw [h.registration, h.runs]
  rfl

/-- The service is shut down with one connection kept alive, and one whose reply is sent. -/
theorem drained_run : ∃ s : CommService Bool, Reaches ServiceStep always .bound s ∧ s.Drained ∧
    s.view = ⟨false, false, true⟩ ∧ (s.conns true).state = .closing ∧ ToKeep (s.conns false) := by
  obtain ⟨kept, toKept, hkept⟩ := ConnRun.kept
  obtain ⟨sent, toSent, hsent⟩ := ConnRun.toKeep
  have bound : Reaches ServiceStep always (.bound : CommService Bool) .bound := .start
  have accepted := (bound.next trivial (.accept (i := true) (.inl rfl) rfl rfl)).next trivial
    (.accept (i := false) (.inl rfl) rfl rfl)
  have first := CommService.reaches_conn (i := true) accepted (fun _ _ _ => trivial) toKept.anyway
  have both := CommService.reaches_conn (i := false) first (fun _ _ _ => trivial) toSent.anyway
  have handled := ((both.next trivial (.unbind rfl rfl)).next trivial (.listenDeleted rfl rfl)).next trivial
    (.handleDeleted rfl)
  have draining := (handled.next trivial (.close rfl)).next trivial (.drainLast rfl rfl)
  have taken := draining.next trivial (.drainTake (i := true) rfl rfl (by decide) hkept.alive)
  have closed := taken.next trivial (.drainSet rfl rfl)
  have drained := closed.next trivial (.drainUnlock rfl rfl (.inr fun i => by
    cases i with
    | true => rfl
    | false => exact hsent.alive))
  exact ⟨_, drained, .inl rfl, rfl, rfl, hsent⟩

/-- The one is closed by the `drain`, and the other when its reply completes behind it. -/
theorem shutdown_leaves_none_drained : ∃ s s' : CommService Bool, Reaches ServiceStep always .bound s ∧ s.Drained ∧
    (s.conns true).state = .closing ∧ ToKeep (s.conns false) ∧ Reaches ServiceStep always s s' ∧
    (s'.conns false).state = .closing ∧
    ∀ i, s'.Drained ∧ (s'.conns i).inAlive = false ∧ TurnsAway s'.view (s'.conns i) := by
  obtain ⟨s, run, drained, hview, hclosed, hsent⟩ := drained_run
  obtain ⟨c, away, hc, -⟩ := hsent.turned_away
  rw [← hview] at away
  have later := CommService.reaches_conn (i := false) (.start : Reaches ServiceStep always s s) (fun _ _ _ => trivial)
    away
  refine ⟨s, s.setConn false c, run, drained, hclosed, hsent, later, ?_, shutdown_leaves_none run drained later⟩
  rw [CommService.setConn_self]
  exact hc

/-! ## The service is unbound once -/

/-- The reference of the service that `shutdown_service` gives back. -/
def Shutdown.refs : Shutdown → Nat
  | awaited => 1
  | begun => 1
  | closed => 1
  | draining => 1
  | drained => 1
  | unbinding => 0
  | done => 0

section

variable {ι : Type} {s s' : CommService ι} {a : ServiceAct ι}

/-- Who has called `handle_unbound`, or is about to. -/
inductive Told (s : CommService ι) : Prop
  | told (once : s.unbound = 1) (shutdown : s.shutdown ≠ .unbinding) (targets : ∀ i, (s.conns i).targetEnd ≠ .unbinding)
  | byShutdown (yet : s.unbound = 0) (shutdown : s.shutdown = .unbinding)
      (targets : ∀ i, (s.conns i).targetEnd ≠ .unbinding)
  | byTarget (i : ι) (yet : s.unbound = 0) (shutdown : s.shutdown ≠ .unbinding)
      (target : (s.conns i).targetEnd = .unbinding) (others : ∀ j, j ≠ i → (s.conns j).targetEnd ≠ .unbinding)

/-- The service is referred to by its targets and by itself, and told when there is no reference left. -/
structure ServiceRefs (s : CommService ι) : Prop where
  entry : ∀ i, EntryRefs (s.conns i)
  target : ∀ i, TargetRefs (s.conns i)
  counted : ∃ F : Finset ι, (∀ i, i ∈ F ↔ (s.conns i).Refers) ∧ s.ref = (F.card + s.shutdown.refs : Nat)
  silent : 0 < s.ref → s.unbound = 0 ∧ s.shutdown ≠ .unbinding ∧ ∀ i, (s.conns i).targetEnd ≠ .unbinding
  told : s.ref = 0 → Told s

theorem ServerConn.not_refers {c : ServerConn} (h : c.targetEnd ≠ .none) (h' : c.targetEnd ≠ .unref) : ¬c.Refers :=
  fun hr => hr.2.elim h h'

theorem EntryRefs.absent : EntryRefs .absent :=
  ⟨fun _ => ⟨rfl, rfl, rfl⟩, nofun, fun _ _ => rfl, nofun, nofun, nofun, nofun⟩

theorem EntryRefs.accepted : EntryRefs .accepted :=
  ⟨fun _ => ⟨rfl, rfl, rfl⟩, nofun, fun _ _ => rfl, nofun, nofun, nofun, nofun⟩

theorem TargetRefs.absent' : TargetRefs .absent :=
  ⟨rfl, fun hb => absurd rfl hb, fun _ => ⟨rfl, rfl⟩, (by rintro (h | h) <;> cases h), fun _ _ => rfl, fun _ => rfl⟩

theorem TargetRefs.accepted : TargetRefs .accepted :=
  ⟨rfl, fun _ => ⟨fun _ => by decide, fun _ => rfl⟩, nofun, (by rintro (h | h) <;> cases h), fun _ _ => rfl,
    fun _ => rfl⟩

namespace ServiceRefs

theorem bound : ServiceRefs (CommService.bound : CommService ι) :=
  ⟨fun _ => .absent, fun _ => .absent', ⟨∅, fun _ => ⟨nofun, fun h => absurd rfl h.1⟩, rfl⟩,
    fun _ => ⟨rfl, nofun, fun _ => nofun⟩, nofun⟩

/-- The references are as they were, and so are those who tell. -/
theorem frame (h : ServiceRefs s) (entry : ∀ i, EntryRefs (s'.conns i)) (target : ∀ i, TargetRefs (s'.conns i))
    (ref : s'.ref = s.ref) (unbound : s'.unbound = s.unbound) (refs : s'.shutdown.refs = s.shutdown.refs)
    (refers : ∀ i, (s'.conns i).Refers ↔ (s.conns i).Refers)
    (shutdown : s'.shutdown = .unbinding ↔ s.shutdown = .unbinding)
    (unbinding : ∀ i, (s'.conns i).targetEnd = .unbinding ↔ (s.conns i).targetEnd = .unbinding) : ServiceRefs s' where
  entry := entry
  target := target
  counted := by
    obtain ⟨F, hF, hcard⟩ := h.counted
    refine ⟨F, fun i => (hF i).trans (refers i).symm, ?_⟩
    rw [ref, refs]
    exact hcard
  silent hpos := by
    obtain ⟨hu, hs, ht⟩ := h.silent (ref ▸ hpos)
    exact ⟨unbound.trans hu, fun h => hs (shutdown.1 h), fun i h => ht i ((unbinding i).1 h)⟩
  told hzero := by
    cases h.told (ref ▸ hzero) with
    | told once hs ht =>
      exact .told (unbound.trans once) (fun h => hs (shutdown.1 h)) fun i h => ht i ((unbinding i).1 h)
    | byShutdown yet hs ht =>
      exact .byShutdown (unbound.trans yet) (shutdown.2 hs) fun i h => ht i ((unbinding i).1 h)
    | byTarget i yet hs ht others =>
      exact .byTarget i (unbound.trans yet) (fun h => hs (shutdown.1 h)) ((unbinding i).2 ht) fun j hj h =>
        others j hj ((unbinding j).1 h)

/-- One connection moves. -/
theorem moved [DecidableEq ι] (h : ServiceRefs s) {i : ι} {c : ServerConn}
    (conns : s'.conns = Function.update s.conns i c)
    (entry : EntryRefs c) (target : TargetRefs c) (ref : s'.ref = s.ref) (unbound : s'.unbound = s.unbound)
    (shutdown : s'.shutdown = s.shutdown) (refers : c.Refers ↔ (s.conns i).Refers)
    (unbinding : c.targetEnd = .unbinding ↔ (s.conns i).targetEnd = .unbinding) : ServiceRefs s' := by
  have hconns : s'.conns = (s.setConn i c).conns := conns
  refine h.frame ?_ ?_ ref unbound (congrArg Shutdown.refs shutdown) ?_ (by rw [shutdown]) ?_ <;> rw [hconns]
  · exact CommService.setConn_all h.entry entry
  · exact CommService.setConn_all h.target target
  · exact CommService.setConn_iff refers
  · exact CommService.setConn_iff (P := fun c => c.targetEnd = .unbinding) unbinding

/-- `shutdown_service` goes on, with its reference. -/
theorem goes (h : ServiceRefs s) (conns : s'.conns = s.conns) (ref : s'.ref = s.ref) (unbound : s'.unbound = s.unbound)
    (before : s.shutdown.refs = 1) (after : s'.shutdown.refs = 1) : ServiceRefs s' := by
  have hnot : ∀ d : Shutdown, d.refs = 1 → d ≠ .unbinding := by
    rintro d hd rfl
    cases hd
  refine h.frame ?_ ?_ ref unbound (after.trans before.symm) ?_
    ⟨fun hs => absurd hs (hnot _ after), fun hs => absurd hs (hnot _ before)⟩ ?_ <;> rw [conns]
  · exact h.entry
  · exact h.target
  · exact fun _ => .rfl
  · exact fun _ => .rfl

theorem pos (h : ServiceRefs s) (refs : s.shutdown.refs = 1) : 0 < s.ref := by
  obtain ⟨F, -, hcard⟩ := h.counted
  omega

/-- `Communicator::accept` makes a target, which refers to the service. -/
theorem accept [DecidableEq ι] (h : ServiceRefs s) {i : ι} (refs : s.shutdown.refs = 1)
    (new : (s.conns i).birth = .absent) :
    ServiceRefs { s.setConn i .accepted with ref := s.ref + 1 } := by
  have hpos := h.pos refs
  have hnot : ¬(s.conns i).Refers := fun hr => hr.1 new
  obtain ⟨hu, hs, ht⟩ := h.silent hpos
  refine ⟨CommService.setConn_all h.entry .accepted, CommService.setConn_all h.target .accepted, ?_,
    fun _ => ⟨hu, hs, ?_⟩,
    fun hz => ?_⟩
  · obtain ⟨F, hF, hcard⟩ := h.counted
    refine ⟨insert i F, fun j => ?_, ?_⟩
    · by_cases hj : j = i
      · subst hj
        dsimp only
        rw [CommService.setConn_self]
        exact ⟨fun _ => ⟨nofun, .inl rfl⟩, fun _ => Finset.mem_insert_self j F⟩
      · dsimp only
        rw [CommService.setConn_of_ne _ hj, ← hF, Finset.mem_insert, or_iff_right hj]
    · have hmem : i ∉ F := fun hi => hnot ((hF i).1 hi)
      dsimp only [CommService.setConn]
      rw [Finset.card_insert_of_notMem hmem, hcard]
      omega
  · exact CommService.setConn_all (P := fun c => c.targetEnd ≠ .unbinding) ht nofun
  · have hz' : s.ref + 1 = 0 := hz
    omega

/-- `shutdown_service` gives its reference back. -/
theorem decref (h : ServiceRefs s) (drained : s.shutdown = .drained) :
    ServiceRefs { s with ref := s.ref - 1, shutdown := if s.ref - 1 = 0 then .unbinding else .done } := by
  have hrefs : s.shutdown.refs = 1 := congrArg Shutdown.refs drained
  obtain ⟨hu, -, ht⟩ := h.silent (h.pos hrefs)
  refine ⟨h.entry, h.target, ?_, fun hpos => ⟨hu, ?_, ht⟩, fun hz => .byShutdown hu ?_ ht⟩
  · obtain ⟨F, hF, hcard⟩ := h.counted
    have hgone : (if s.ref - 1 = 0 then Shutdown.unbinding else .done).refs = 0 := by
      split <;> rfl
    refine ⟨F, hF, ?_⟩
    dsimp only
    rw [hgone, hcard, hrefs]
    omega
  · have hne : s.ref - 1 ≠ 0 := Int.ne_of_gt hpos
    dsimp only
    rw [if_neg hne]
    nofun
  · exact if_pos hz

/-- Who is about to call `handle_unbound` is the one who gave back the last reference. -/
theorem zero (h : ServiceRefs s) (tells : s.shutdown = .unbinding ∨ ∃ i, (s.conns i).targetEnd = .unbinding) :
    s.ref = 0 := by
  by_contra hne
  obtain ⟨F, -, hcard⟩ := h.counted
  obtain ⟨-, hs, ht⟩ := h.silent (by omega)
  rcases tells with hs' | ⟨i, hi⟩
  · exact hs hs'
  · exact ht i hi

/-- `shutdown_service` tells that the service is unbound. -/
theorem handleUnbound (h : ServiceRefs s) (unbinding : s.shutdown = .unbinding) :
    ServiceRefs { s with unbound := s.unbound + 1, shutdown := .done } := by
  have hzero := h.zero (.inl unbinding)
  refine ⟨h.entry, h.target, ?_, fun hpos => absurd hzero (Int.ne_of_gt hpos), fun _ => ?_⟩
  · obtain ⟨F, hF, hcard⟩ := h.counted
    refine ⟨F, hF, ?_⟩
    rw [unbinding] at hcard
    exact hcard
  · cases h.told hzero with
    | told once hs ht => exact absurd unbinding hs
    | byShutdown yet hs ht => exact .told (congrArg (· + 1) yet) nofun ht
    | byTarget i yet hs ht others => exact absurd unbinding hs

/-- A target gives back its reference of the service. -/
theorem targetUnref [DecidableEq ι] (h : ServiceRefs s) {i : ι} (unref : (s.conns i).targetEnd = .unref) :
    ServiceRefs { s.setConn i { s.conns i with targetEnd := if s.ref - 1 = 0 then .unbinding else .deleting } with
      ref := s.ref - 1 } := by
  have hb : (s.conns i).birth ≠ .absent := fun hb => absurd (((h.target i).absent hb).1.symm.trans unref) nofun
  obtain ⟨F, hF, hcard⟩ := h.counted
  have hi : i ∈ F := (hF i).2 ⟨hb, .inr unref⟩
  have hone : 0 < F.card := Finset.card_pos.2 ⟨i, hi⟩
  obtain ⟨hu, hs, ht⟩ := h.silent (by omega)
  refine ⟨CommService.setConn_all h.entry ?_, CommService.setConn_all h.target ?_, ⟨F.erase i, fun j => ?_, ?_⟩,
    fun hpos => ⟨hu, hs, ?_⟩, fun hz => .byTarget i hu hs ?_ fun j hj => ?_⟩
  · exact (h.entry i).frame rfl rfl rfl rfl rfl rfl rfl
  · refine (h.target i).ended_again (by rw [unref]; nofun) ?_
    split <;> nofun
  · by_cases hj : j = i
    · subst hj
      dsimp only
      rw [CommService.setConn_self]
      refine ⟨fun he => absurd he (Finset.notMem_erase j F), fun hr => ?_⟩
      have hend := hr.2
      dsimp only at hend
      split at hend <;> rcases hend with hend | hend <;> cases hend
    · dsimp only
      rw [CommService.setConn_of_ne _ hj, ← hF, Finset.mem_erase, and_iff_right hj]
  · dsimp only [CommService.setConn]
    rw [Finset.card_erase_of_mem hi, hcard]
    omega
  · have hne : s.ref - 1 ≠ 0 := Int.ne_of_gt hpos
    refine CommService.setConn_all (P := fun c => c.targetEnd ≠ .unbinding) ht ?_
    rw [if_neg hne]
    nofun
  · have hz' : s.ref - 1 = 0 := hz
    dsimp only
    rw [CommService.setConn_self, if_pos hz']
  · dsimp only
    rw [CommService.setConn_of_ne _ hj]
    exact ht j

/-- A target tells that the service is unbound. -/
theorem targetUnbound [DecidableEq ι] (h : ServiceRefs s) {i : ι} (unbinding : (s.conns i).targetEnd = .unbinding) :
    ServiceRefs { s.setConn i { s.conns i with targetEnd := .deleting } with unbound := s.unbound + 1 } := by
  have hzero := h.zero (.inr ⟨i, unbinding⟩)
  refine ⟨CommService.setConn_all h.entry ((h.entry i).frame rfl rfl rfl rfl rfl rfl rfl),
    CommService.setConn_all h.target ((h.target i).ended_again (by rw [unbinding]; nofun) nofun), ?_,
    fun hpos => absurd hzero (Int.ne_of_gt hpos), fun _ => ?_⟩
  · obtain ⟨F, hF, hcard⟩ := h.counted
    refine ⟨F, fun j => (hF j).trans (CommService.setConn_iff ?_ j).symm, hcard⟩
    exact iff_of_false (ServerConn.not_refers nofun nofun)
      (ServerConn.not_refers (by rw [unbinding]; nofun) (by rw [unbinding]; nofun))
  · cases h.told hzero with
    | told once hs ht => exact absurd unbinding (ht i)
    | byShutdown yet hs ht => exact absurd unbinding (ht i)
    | byTarget j yet hs ht others =>
      have hij : i = j := by
        by_contra hne
        exact others i hne unbinding
      subst hij
      refine .told (congrArg (· + 1) yet) hs fun k => ?_
      by_cases hk : k = i
      · subst hk
        dsimp only
        rw [CommService.setConn_self]
        nofun
      · dsimp only
        rw [CommService.setConn_of_ne _ hk]
        exact others k hk

end ServiceRefs

/-- **Every step of a service keeps its references balanced.** -/
theorem ServiceStep.refs [DecidableEq ι] (ok : ServiceOk true s) (shut : ShutOnce s) (h : ServiceRefs s)
    (step : ServiceStep s a s') : ServiceRefs s' := by
  cases step with
  | @conn i b c step =>
    refine h.moved rfl (step.refs (ok.conns i) (h.entry i)) (step.target_refs (ok.conns i) (h.entry i) (h.target i))
      rfl rfl
      rfl (step.refers_iff (h.target i)) ?_
    rcases step.targetEnd_eq (h.target i) with he | ⟨he, he'⟩
    · rw [he]
    · rw [he, he']
      exact ⟨nofun, nofun⟩
  | accept registered runs new =>
    have hs := shut.before (registered.imp_right .inl)
    exact h.accept (congrArg Shutdown.refs hs) new
  | listenFails registered runs => exact h.frame h.entry h.target rfl rfl rfl (fun _ => .rfl) .rfl fun _ => .rfl
  | listenDeleted piped runs => exact h.frame h.entry h.target rfl rfl rfl (fun _ => .rfl) .rfl fun _ => .rfl
  | halt stopping runs => exact h.frame h.entry h.target rfl rfl rfl (fun _ => .rfl) .rfl fun _ => .rfl
  | deinit => exact h.frame h.entry h.target rfl rfl rfl (fun _ => .rfl) .rfl fun _ => .rfl
  | unbind first registered => exact h.frame h.entry h.target rfl rfl rfl (fun _ => .rfl) .rfl fun _ => .rfl
  | unbindGone first gone => exact h.goes rfl rfl rfl (congrArg Shutdown.refs (shut.awaited first).1) rfl
  | handleDeleted queued => exact h.goes rfl rfl rfl (congrArg Shutdown.refs (shut.before (.inr (.inr queued)))) rfl
  | handleStop queued stops => exact h.frame h.entry h.target rfl rfl rfl (fun _ => .rfl) .rfl fun _ => .rfl
  | close begun => exact h.goes rfl rfl rfl (congrArg Shutdown.refs begun) rfl
  | drainLast closed lock => exact h.goes rfl rfl rfl (congrArg Shutdown.refs closed) rfl
  | decref drained => exact h.decref drained
  | handleUnbound unbinding => exact h.handleUnbound unbinding
  | drainLock lock => exact h.frame h.entry h.target rfl rfl rfl (fun _ => .rfl) .rfl fun _ => .rfl
  | @drainTake d i drains at_loop more alive =>
    exact h.moved rfl ((h.entry i).frame_held (ServerConn.mpollerDel_held _) rfl rfl rfl rfl rfl rfl rfl rfl)
      ((h.target i).frame rfl rfl rfl rfl rfl rfl rfl (fun _ => rfl) id) rfl rfl rfl .rfl .rfl
  | @drainSet d i drains taken =>
    exact h.moved rfl ((h.entry i).frame rfl rfl rfl rfl rfl rfl rfl)
      ((h.target i).frame rfl rfl rfl rfl rfl rfl rfl (fun _ => rfl) id) rfl rfl rfl .rfl .rfl
  | @drainUnlock d drains at_loop ends =>
    cases hl : d.last with
    | true => exact h.goes rfl rfl rfl (congrArg Shutdown.refs (shut.last d drains hl).1) rfl
    | false => exact h.frame h.entry h.target rfl rfl rfl (fun _ => .rfl) .rfl fun _ => .rfl
  | targetUnref unref => exact h.targetUnref unref
  | targetUnbound unbinding => exact h.targetUnbound unbinding
  | @targetDeleted i deleting =>
    refine h.moved rfl ((h.entry i).frame rfl rfl rfl rfl rfl rfl rfl)
      ((h.target i).ended_again (by rw [deleting]; nofun) nofun) rfl rfl rfl ?_ ?_
    · exact iff_of_false (ServerConn.not_refers nofun nofun)
        (ServerConn.not_refers (by rw [deleting]; nofun) (by rw [deleting]; nofun))
    · rw [deleting]
      exact ⟨nofun, nofun⟩

/-- What is kept over the runs of a service. -/
structure ServiceKept (s : CommService ι) : Prop where
  ok : ServiceOk true s
  shut : ShutOnce s
  refs : ServiceRefs s

theorem ServiceKept.of_run [DecidableEq ι] (run : Reaches ServiceStep always (.bound : CommService ι) s) :
    ServiceKept s :=
  run.keeps (fun _ _ _ h _ step => ⟨step.ok h.ok fun _ _ => .inr rfl, step.shut h.shut, step.refs h.ok h.shut h.refs⟩)
    ⟨.bound, .bound, .bound⟩

/-- The target is deleted, or is next, its reference of the service given back. -/
def ServerConn.Parted (c : ServerConn) : Prop := c.birth = .absent ∨ c.targetEnd = .deleting ∨ c.targetEnd = .deleted

theorem ServerConn.parted {c : ServerConn} (h : ¬c.Refers) (hu : c.targetEnd ≠ .unbinding) : c.Parted := by
  by_cases hb : c.birth = .absent
  · exact .inl hb
  · cases he : c.targetEnd with
    | none => exact absurd ⟨hb, .inl he⟩ h
    | unref => exact absurd ⟨hb, .inr he⟩ h
    | unbinding => exact absurd he hu
    | deleting => exact .inr (.inl he)
    | deleted => exact .inr (.inr he)

theorem Shutdown.done_of_refs : ∀ (d : Shutdown), d.refs = 0 → d ≠ .unbinding → d = .done
  | unbinding, _, h => absurd rfl h
  | done, _, _ => rfl

/-- **A service is told once that it is unbound**, by who gives back the last reference of it. -/
theorem unbound_once [DecidableEq ι] (run : Reaches ServiceStep always (.bound : CommService ι) s) :
    s.unbound ≤ 1 ∧ (0 < s.unbound → s.shutdown = .done ∧ ∀ i, (s.conns i).Parted) ∧
      (s.shutdown = .done → (∀ i, (s.conns i).birth = .absent ∨ (s.conns i).targetEnd = .deleted) → s.unbound = 1) := by
  obtain ⟨-, -, h⟩ := ServiceKept.of_run run
  obtain ⟨F, hF, hcard⟩ := h.counted
  rcases Int.lt_or_eq_of_le (show (0 : Int) ≤ s.ref by omega) with hpos | hzero
  · obtain ⟨hu, -, -⟩ := h.silent hpos
    refine ⟨by omega, by omega, fun hd hall => ?_⟩
    have hempty : F = ∅ := Finset.eq_empty_of_forall_notMem fun i hi => by
      have hr := (hF i).1 hi
      rcases hall i with ha | ha
      · exact hr.1 ha
      · exact ServerConn.not_refers (by rw [ha]; nofun) (by rw [ha]; nofun) hr
    rw [hd, hempty] at hcard
    exact absurd hcard (Int.ne_of_gt hpos)
  · have hnone : F.card = 0 ∧ s.shutdown.refs = 0 := by omega
    have hnot : ∀ i, ¬(s.conns i).Refers := fun i hr => by
      have hi := (hF i).2 hr
      rw [Finset.card_eq_zero.1 hnone.1] at hi
      exact Finset.notMem_empty i hi
    cases h.told hzero.symm with
    | told once hs ht =>
      exact ⟨once.le, fun _ => ⟨s.shutdown.done_of_refs hnone.2 hs, fun i => ServerConn.parted (hnot i) (ht i)⟩,
        fun _ _ => once⟩
    | byShutdown yet hs ht => exact ⟨by omega, by omega, fun hd => absurd (hs.symm.trans hd) nofun⟩
    | byTarget i yet hs ht others =>
      refine ⟨by omega, by omega, fun _ hall => ?_⟩
      rcases hall i with ha | ha
      · exact absurd (((h.target i).absent ha).1.symm.trans ht) nofun
      · exact absurd (ht.symm.trans ha) nofun

end

/-- A connection is refused, the service shut down, and the target of the connection then the last to refer to it. -/
theorem unbound_run : ∃ s : CommService Unit, Reaches ServiceStep always .bound s ∧ s.shutdown = .done ∧ s.unbound = 1 ∧
    (s.conns ()).birth = .refused ∧ (s.conns ()).targetEnd = .deleting := by
  have accepted : Reaches ServiceStep always (.bound : CommService Unit) _ :=
    .next (a := .accept ()) .start trivial (.accept (.inl rfl) rfl rfl)
  have refused := (accepted.next trivial (.conn (i := ()) (.refuse rfl))).next trivial
    (.conn (i := ()) (.dropTarget Nat.one_pos))
  have handled := ((refused.next trivial (.unbind rfl rfl)).next trivial (.listenDeleted rfl rfl)).next trivial
    (.handleDeleted rfl)
  have draining := (handled.next trivial (.close rfl)).next trivial (.drainLast rfl rfl)
  have drained := draining.next trivial (.drainUnlock rfl rfl (.inr fun _ => rfl))
  have last := (drained.next trivial (.decref rfl)).next trivial (.targetUnref (i := ()) rfl)
  exact ⟨_, last.next trivial (.targetUnbound (i := ()) rfl), rfl, rfl, rfl, rfl⟩

theorem unbound_once_refused : ∃ s : CommService Unit, s.unbound = 1 ∧ s.shutdown = .done ∧ (s.conns ()).Parted := by
  obtain ⟨s, run, -, hone, -⟩ := unbound_run
  obtain ⟨hdone, hparted⟩ := (unbound_once run).2.1 (by omega)
  exact ⟨s, hone, hdone, hparted ()⟩

/-- **The target whose `decref` makes the call exists until the call is back.** -/
theorem unbound_with_target : ¬ ∀ s : CommService Unit, Reaches ServiceStep always .bound s → 0 < s.unbound →
    (s.conns ()).birth = .absent ∨ (s.conns ()).targetEnd = .deleted := by
  intro h
  obtain ⟨s, run, -, hone, hb, hend⟩ := unbound_run
  rcases h s run (by omega) with ha | ha
  · exact absurd (hb.symm.trans ha) nofun
  · exact absurd (hend.symm.trans ha) nofun

end Tinywf
