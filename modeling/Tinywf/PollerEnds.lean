import Tinywf.PollerAccounts
/-!
# PollerEnds — every registration ends once

What the thread still has of the events it was given is live or posted, as the pipe is read only behind the last of them;
and while it runs the poller is not stopped, so no other thread calls a node back (`PollerSys.Ok`).  Every step keeps
this (`PollerStep.ok`), and no step looks at a node that has been called back.
-/
namespace Tinywf

open InorderTree

namespace PollerPc

/-- The nodes the thread is to call back. -/
def held : PollerPc → List NodeId
  | ending n _ _ => [n]
  | piped l _ => l.filterMap id
  | expired l => l
  | _ => []

/-- Those it has from the pipe. -/
def ready : PollerPc → List NodeId
  | piped l _ => l.filterMap id
  | _ => []

/-- The nodes it has an event for. -/
def batch : PollerPc → List NodeId
  | events l _ => l
  | handling n l _ => n :: l
  | ending _ l _ => l
  | _ => []

/-- The thread does not run. -/
def Idle : PollerPc → Prop
  | unstarted => True
  | exited => True
  | _ => False

theorem Idle.batch {th : PollerPc} (h : th.Idle) : th.batch = [] := by
  cases th <;> first | rfl | cases h

theorem held_of_ready {th : PollerPc} {n : NodeId} (h : n ∈ th.ready) : n ∈ th.held := by
  cases th <;> first | exact h | cases h

end PollerPc

structure PollerSys.Ok (cap : Nat) (s : PollerSys) : Prop where
  registry : s.poller.Holds [] s.poller.nodes
  epoll : s.poller.Registered
  accounts : s.poller.Accounts s.thread.held
  ready : ∀ n ∈ s.thread.ready, (s.poller.node n).state.isSome
  batch : ∀ n ∈ s.thread.batch, (n ∈ s.poller.live ∨ n ∈ s.poller.posted) ∧ 0 ≤ (s.poller.node n).data.fd
  once : s.thread.batch.Nodup
  running : ¬ s.thread.Idle → s.poller.stopped = false
  joined : s.stop = .joined ∨ s.stop = .swept → s.thread = .exited
  room : s.poller.pipe.length ≤ cap
  swept : s.stop = .swept → s.poller.live = [] ∧ s.poller.pipe = []

namespace PollerSys

variable {B : Balance NodeId} {cap : Nat} {s s' : PollerSys}

/-- The thread moves without touching the poller. -/
theorem Ok.moves {th : PollerPc} (h : s.Ok cap) (held : th.held = s.thread.held) (ready : ∀ n ∈ th.ready, n ∈ s.thread.ready)
    (batch : th.batch.Sublist s.thread.batch) (runs : ¬ s.thread.Idle) : { s with thread := th }.Ok cap := by
  refine { h with
    accounts := held ▸ h.accounts
    ready := fun n hn => h.ready n (ready n hn)
    batch := fun n hn => h.batch n (batch.subset hn)
    once := h.once.sublist batch
    running := fun _ => h.running runs
    joined := fun hs => ?_ }
  have := h.joined hs
  rw [this] at runs
  exact absurd trivial runs

theorem Ok.op {op : PollerOp} (h : s.Ok cap) (free : op.Public) (late : s.stop = .swept → ¬ op.Brings)
    (room : (s.poller.exec B op).2.pipe.length ≤ cap) : { s with poller := (s.poller.exec B op).2 }.Ok cap := by
  obtain ⟨hacc, hon⟩ := Poller.exec_accounts (B := B) free h.registry h.accounts
  have hold : ∀ n, n ∈ s.poller.live ∨ n ∈ s.poller.posted → n < s.poller.fresh := fun n hn =>
    h.accounts.mem_iff.2 (hn.imp_right Or.inl)
  refine {
    registry := Poller.exec_holds h.registry (by cases op <;> trivial)
    epoll := h.epoll.exec free
    accounts := hacc
    ready := fun n hn => ?_
    batch := fun n hn => ?_
    once := h.once
    running := fun hi => hon.stopped.trans (h.running hi)
    joined := h.joined
    room := room
    swept := fun hs => ?_ }
  · exact hon.state n (h.accounts.mem_iff.2 (Or.inr (Or.inr (Or.inl (PollerPc.held_of_ready hn))))) (h.ready n hn)
  · -- the thread runs, so that the node is not called back
    obtain ⟨hplace, hfd⟩ := h.batch n hn
    have hruns : ¬ s.thread.Idle := fun hi => by
      rw [hi.batch] at hn
      cases hn
    have hcalls := hon.calls (h.running hruns)
    have hlt := hold n hplace
    refine ⟨?_, by rw [hon.data n hlt]; exact hfd⟩
    rcases hacc.mem_iff.1 (Nat.lt_of_lt_of_le hlt hon.fresh) with hm | hm | hm | hm
    · exact Or.inl hm
    · exact Or.inr hm
    · exact absurd hm (h.accounts.not_held hplace)
    · rw [Poller.called, hcalls] at hm
      exact absurd hm (h.accounts.not_called (hplace.imp_right Or.inl))
  · obtain ⟨hlive, hpipe⟩ := h.swept hs
    show (s.poller.exec B op).2.live = [] ∧ (s.poller.exec B op).2.pipe = []
    rw [Poller.exec_none free (late hs) h.registry hlive]
    exact ⟨hlive, hpipe⟩

theorem setTimer_eq (p : Poller) : ∃ t, p.setTimer = { p with timerfd := t } := by
  unfold Poller.setTimer
  dsimp only
  split <;> exact ⟨_, rfl⟩

/-- The timer does not matter here. -/
theorem Ok.timerfd (t : Timerfd) (h : s.Ok cap) : { s with poller := { s.poller with timerfd := t } }.Ok cap :=
  { h with
    registry := h.registry.congr rfl rfl (fun _ => rfl) rfl
    epoll := h.epoll.congr rfl rfl
    accounts := h.accounts.congr rfl rfl rfl rfl fun _ => ⟨rfl, rfl⟩ }

theorem Ok.remove {n : NodeId} {batch : List NodeId} {pipe : Bool} (h : s.Ok cap)
    (thread : s.thread = .handling n batch pipe) : { s with
      poller := (s.poller.removeNode B n).2
      thread := if (s.poller.removeNode B n).1 then .events batch pipe else .ending n batch pipe }.Ok cap := by
  have hbatch := h.batch
  have honce := h.once
  have hacc := h.accounts
  rw [thread] at hbatch honce hacc
  have hnd := List.nodup_cons.1 honce
  have hruns : ¬ s.thread.Idle := by
    rw [thread]
    exact id
  obtain ⟨hplace, hfd⟩ := hbatch n List.mem_cons_self
  by_cases hr : (s.poller.node n).removed = true
  · have hremove : s.poller.removeNode B n = (true, s.poller) := if_pos hr
    rw [hremove]
    exact h.moves (by rw [thread]; rfl) (fun _ hm => (by cases hm)) (by rw [thread]; exact List.sublist_cons_self ..) hruns
  · have hremove : s.poller.removeNode B n = (false, (s.poller.unlink B n).leave n) := if_neg hr
    have hlive : n ∈ s.poller.live := hplace.resolve_right fun hp => hr (hacc.posted_flag n hp).1
    have hunlink : (s.poller.unlink B n).Accounts [] := hacc.congr rfl rfl rfl rfl fun _ => ⟨rfl, rfl⟩
    obtain ⟨hlv, hnode, hpipe, -, hstopped⟩ := Poller.leave_live n (s.poller.unlink B n)
    have hunreg : (s.poller.unlink B n).Registered := h.epoll.congr rfl rfl
    rw [hremove]
    refine {
      registry := (h.registry.unlink hlive).1.leave
      epoll := hunreg.leave n
      accounts := hunlink.leave hlive
      ready := fun m hm => (by cases hm)
      batch := fun m hm => ?_
      once := hnd.2
      running := fun _ => hstopped.trans (h.running hruns)
      joined := fun hs => ?_
      room := by rw [hpipe]; exact h.room
      swept := fun hs => ?_ }
    · obtain ⟨hm', hfd'⟩ := hbatch m (List.mem_cons_of_mem _ hm)
      have hne : m ≠ n := fun he => hnd.1 (he ▸ hm)
      rw [hlv, hnode, Poller.posted, hpipe]
      exact ⟨hm'.imp_left (List.mem_erase_of_ne hne).2, hfd'⟩
    · have := h.joined hs
      rw [thread] at this
      cases this
    · have := h.joined (Or.inr hs)
      rw [thread] at this
      cases this

/-- The thread calls back a node it holds. -/
theorem Ok.callback {n : NodeId} {th : PollerPc} {p : Poller} (h : s.Ok cap) (held : s.thread.held = n :: th.held)
    (ready : ∀ n ∈ th.ready, n ∈ s.thread.ready) (batch : th.batch.Sublist s.thread.batch)
    (runs : ¬ s.thread.Idle) (same : p = s.poller ∨ ∃ state error, p = s.poller.setResult n state error)
    (some : (p.node n).state.isSome) : { s with poller := p.callback n, thread := th }.Ok cap := by
  have hacc := h.accounts
  rw [held] at hacc
  have hp : p.Accounts (n :: th.held) ∧ s.poller.Onward p ∧ p.toTimeoQueue = s.poller.toTimeoQueue ∧
      p.live = s.poller.live ∧ p.pipe = s.poller.pipe ∧ p.nodes = s.poller.nodes ∧ p.epoll = s.poller.epoll ∧
      p.fresh = s.poller.fresh ∧ ∀ m, (p.node m).data = (s.poller.node m).data := by
    rcases same with rfl | ⟨state, error, rfl⟩
    · exact ⟨hacc, .refl _, rfl, rfl, rfl, rfl, rfl, rfl, fun _ => rfl⟩
    · refine ⟨hacc.setResult n state error, Poller.onward_setResult n state error _, rfl, rfl, rfl, rfl, rfl, rfl, fun m => ?_⟩
      rw [Poller.setResult_node]
      split
      · rename_i he
        rw [he]
      · rfl
  obtain ⟨hacc', hon, hqueue, hlive, hpipe, hnodes, hepoll, hfresh, hdata⟩ := hp
  have hready : ∀ m ∈ s.thread.ready, m < s.poller.fresh := fun m hm =>
    h.accounts.mem_iff.2 (Or.inr (Or.inr (Or.inl (PollerPc.held_of_ready hm))))
  have hexited : s.thread ≠ .exited := fun he => by
    rw [he] at runs
    exact runs trivial
  refine {
    registry := hnodes ▸ h.registry.congr hqueue hlive hdata hfresh
    epoll := h.epoll.congr hepoll hnodes
    accounts := hacc'.callback some
    ready := fun m hm => hon.state m (hready m (ready m hm)) (h.ready m (ready m hm))
    batch := fun m hm => ?_
    once := h.once.sublist batch
    running := fun _ => hon.stopped.trans (h.running runs)
    joined := fun hs => absurd (h.joined hs) hexited
    room := by rw [show (p.callback n).pipe = _ from hpipe]; exact h.room
    swept := fun hs => absurd (h.joined (Or.inr hs)) hexited }
  obtain ⟨hplace, hfd⟩ := h.batch m (batch.subset hm)
  refine ⟨?_, ?_⟩
  · show m ∈ p.live ∨ m ∈ p.pipe.filterMap id
    rw [hlive, hpipe]
    exact hplace
  · show 0 ≤ (p.node m).data.fd
    rw [hdata m]
    exact hfd

/-- The thread goes on, and `poller_stop` is not yet behind its join. -/
theorem Ok.before_join (h : s.Ok cap) (thread : s.thread ≠ .exited) {P : Prop} (hs : s.stop = .joined ∨ s.stop = .swept) :
    P := absurd (h.joined hs) thread

theorem Ok.wake {clock : Timespec} {batch : List NodeId} {pipe : Bool} (h : s.Ok cap) (thread : s.thread = .waiting)
    (ready : ∀ n ∈ batch, ∃ fd ev, s.poller.epoll fd = some (ev, n)) (once : batch.Nodup) :
    { s with thread := .events batch pipe, time := clock }.Ok cap := by
  have hacc := h.accounts
  have hruns := h.running
  rw [thread] at hacc hruns
  refine { h with
    accounts := hacc
    ready := fun n hn => (by cases hn)
    batch := fun n hn => ?_
    once := once
    running := fun _ => hruns id
    joined := h.before_join (by rw [thread]; simp) }
  obtain ⟨fd, ev, hfd⟩ := ready n hn
  obtain ⟨hlive, hdata⟩ := (h.registry.nodes fd n).1 (h.epoll fd ev n hfd)
  exact ⟨Or.inl hlive, by rw [hdata]; exact Int.natCast_nonneg fd⟩

theorem Ok.ssl {n : NodeId} {batch : List NodeId} {pipe : Bool} (event : Nat) (ok : Bool) (h : s.Ok cap)
    (thread : s.thread = .handling n batch pipe) : { s with
      poller := if (s.poller.node n).removed || !ok then s.poller else { s.poller with
        epoll := Function.update s.poller.epoll (s.poller.node n).data.fd.toNat (some (event, n))
        node := Function.update s.poller.node n { s.poller.node n with event := event } } }.Ok cap := by
  split
  · exact h
  · rename_i hr
    have hr : ¬ (s.poller.node n).removed = true := fun h => hr (by rw [h]; rfl)
    obtain ⟨hplace, hfd⟩ := h.batch n (by rw [thread]; exact List.mem_cons_self)
    have hlive : n ∈ s.poller.live := hplace.resolve_right fun hp => hr (h.accounts.posted_flag n hp).1
    have hnode : ∀ m, ((Function.update s.poller.node n { s.poller.node n with event := event } m).data =
        (s.poller.node m).data) ∧ (Function.update s.poller.node n { s.poller.node n with event := event } m).removed =
        (s.poller.node m).removed ∧ (Function.update s.poller.node n { s.poller.node n with event := event } m).state =
        (s.poller.node m).state := fun m => by
      by_cases hm : m = n
      · rw [hm, Function.update_self]
        exact ⟨rfl, rfl, rfl⟩
      · rw [Function.update_of_ne hm]
        exact ⟨rfl, rfl, rfl⟩
    exact { h with
      registry := h.registry.congr rfl rfl (fun m => (hnode m).1) rfl
      epoll := h.epoll.set rfl (Function.update_eq_self_iff.2
        ((h.registry.nodes _ n).2 ⟨hlive, (Int.toNat_of_nonneg hfd).symm⟩).symm).symm
      accounts := h.accounts.congr rfl rfl rfl rfl fun m => (hnode m).2
      ready := fun m hm => by rw [(hnode m).2.2]; exact h.ready m hm
      batch := fun m hm => by rw [(hnode m).1]; exact h.batch m hm }

theorem Ok.readPipe (h : s.Ok cap) (thread : s.thread = .events [] true) : { s with
      poller := { s.poller with pipe := s.poller.pipe.drop pipeRead }
      thread := .piped (s.poller.pipe.take pipeRead) false }.Ok cap := by
  have hacc := h.accounts
  have hruns := h.running
  rw [thread] at hacc hruns
  have hread := hacc.read pipeRead
  rw [show PollerPc.held (.events [] true) = [] from rfl, List.append_nil] at hread
  refine { h with
    registry := h.registry.congr rfl rfl (fun _ => rfl) rfl
    epoll := h.epoll.congr rfl rfl
    accounts := hread
    ready := fun n hn => ?_
    batch := fun n hn => (by cases hn)
    once := List.nodup_nil
    running := fun _ => hruns id
    joined := h.before_join (by rw [thread]; simp)
    room := Nat.le_trans (by rw [List.length_drop]; exact Nat.sub_le ..) h.room
    swept := fun hs => h.before_join (by rw [thread]; simp) (Or.inr hs) }
  exact (hacc.posted_flag n (List.Sublist.subset ((List.take_sublist ..).filterMap id) hn)).2

theorem Ok.timeout (h : s.Ok cap) (thread : s.thread = .timeout) : { s with
      poller := (s.poller.handleTimeout B s.time).2
      thread := .expired (s.poller.handleTimeout B s.time).1 }.Ok cap := by
  have hacc := h.accounts
  have hruns := h.running
  rw [thread] at hacc hruns
  obtain ⟨-, hperm, -⟩ := TimeoQueue.expire_ok (B := B) s.time h.registry.queue
  have hnd := (List.nodup_append.1 (hperm.nodup_iff.2 h.registry.queue.nodup)).1
  have hlive : ∀ n ∈ (s.poller.toTimeoQueue.expire B s.time).1, n ∈ s.poller.live := fun n hn =>
    (h.registry.live n).2 (Or.inr (hperm.mem_iff.1 (List.mem_append_left _ hn)))
  have hqueue : { s.poller with toTimeoQueue := (s.poller.toTimeoQueue.expire B s.time).2 }.Accounts [] :=
    hacc.congr rfl rfl rfl rfl fun _ => ⟨rfl, rfl⟩
  have hunreg : { s.poller with toTimeoQueue := (s.poller.toTimeoQueue.expire B s.time).2 }.Registered :=
    h.epoll.congr rfl rfl
  obtain ⟨hall, hon, hpipe⟩ := hqueue.leave_all hlive hnd
  rw [List.append_nil] at hall
  exact {
    registry := h.registry.handleTimeout s.time
    epoll := hunreg.leave_all
    accounts := hall.held_perm (List.reverse_perm _)
    ready := fun n hn => (by cases hn)
    batch := fun n hn => (by cases hn)
    once := List.nodup_nil
    running := fun _ => hon.stopped.trans (hruns id)
    joined := h.before_join (by rw [thread]; simp)
    room := Nat.le_trans (Nat.le_of_eq (congrArg List.length hpipe)) h.room
    swept := fun hs => h.before_join (by rw [thread]; simp) (Or.inr hs) }

theorem Ok.sweep (hcap : cap ≤ pipeRead) (h : s.Ok cap) (stop : s.stop = .joined) : { s with
      poller := (((s.poller.pipe.take pipeRead).filterMap id).foldl (fun p n => Poller.callback n p)
        { s.poller with pipe := [] }).sweep B
      stop := .swept }.Ok cap := by
  have thread := h.joined (Or.inl stop)
  have hacc := h.accounts
  rw [thread] at hacc
  have hread := hacc.read pipeRead
  have hlen : s.poller.pipe.length ≤ pipeRead := Nat.le_trans h.room hcap
  rw [List.drop_eq_nil_of_le hlen, show PollerPc.held .exited = [] from rfl] at hread
  obtain ⟨hall, calls, heq⟩ := hread.callback_all fun n hn =>
    (hacc.posted_flag n (List.Sublist.subset ((List.take_sublist ..).filterMap id) hn)).2
  rw [heq] at hall
  have hreg : { s.poller with pipe := [], calls := calls }.Holds [] s.poller.nodes :=
    h.registry.congr rfl rfl (fun _ => rfl) rfl
  obtain ⟨h1, h2, h3, h4, h5, h6⟩ := Poller.sweep_accounts (B := B) hall hreg (h.epoll.congr rfl rfl)
  rw [heq]
  exact {
    registry := h5
    epoll := h6
    accounts := by rw [thread]; exact h1
    ready := fun n hn => (by rw [thread] at hn; cases hn)
    batch := fun n hn => (by rw [thread] at hn; cases hn)
    once := by rw [thread]; exact List.nodup_nil
    running := fun hi => (by rw [thread] at hi; exact absurd trivial hi)
    joined := fun _ => thread
    room := by rw [show (Poller.sweep B _).pipe = [] from h3]; exact Nat.zero_le _
    swept := fun _ => ⟨h2, h3⟩ }

end PollerSys

/-- **Every step keeps it**, the sweep if the pipe holds no more than it reads at once. -/
theorem PollerStep.ok {B : Balance NodeId} {cap : Nat} {s s' : PollerSys} {a : PollerAct} (h : s.Ok cap)
    (hcap : a = .sweep → cap ≤ pipeRead) (step : PollerStep B cap s a s') : s'.Ok cap := by
  cases step with
  | op op free late room => exact h.op free late room
  | start thread =>
    exact { h with
      registry := h.registry.congr rfl rfl (fun _ => rfl) rfl
      epoll := h.epoll.congr rfl rfl
      accounts := by
        have hacc := h.accounts
        rw [thread] at hacc
        exact hacc.congr rfl rfl rfl rfl fun _ => ⟨rfl, rfl⟩
      ready := fun n hn => (by cases hn)
      batch := fun n hn => (by cases hn)
      once := List.nodup_nil
      running := fun _ => rfl
      joined := h.before_join (by rw [thread]; simp) }
  | setTimer thread =>
    obtain ⟨t, ht⟩ := PollerSys.setTimer_eq s.poller
    rw [ht]
    exact (h.timerfd t).moves (by rw [thread]; rfl) (fun _ hm => (by cases hm)) (List.nil_sublist _) (by rw [thread]; exact id)
  | fire t armed => exact h.timerfd .fired
  | wake clock batch pipe thread ready once readable => exact h.wake thread ready once
  | event n batch pipe thread =>
    exact h.moves (by rw [thread]; rfl) (fun _ hm => (by cases hm)) (by rw [thread]; exact List.Sublist.refl _)
      (by rw [thread]; exact id)
  | handle n batch pipe thread => exact h
  | ssl n batch pipe event ok thread => exact h.ssl event ok thread
  | handled n batch pipe thread =>
    exact h.moves (by rw [thread]; rfl) (fun _ hm => (by cases hm)) (by rw [thread]; exact List.sublist_cons_self ..)
      (by rw [thread]; exact id)
  | remove n batch pipe thread => exact h.remove thread
  | finish n batch pipe state error thread ends =>
    exact h.callback (by rw [thread]; rfl) (fun _ hm => (by cases hm)) (by rw [thread]; exact List.Sublist.refl _)
      (by rw [thread]; exact id) (Or.inr ⟨state, error, rfl⟩) (Poller.setResult_self ..)
  | readPipe thread => exact h.readPipe thread
  | noPipe thread =>
    exact h.moves (by rw [thread]; rfl) (fun _ hm => (by cases hm)) (List.nil_sublist _) (by rw [thread]; exact id)
  | pipeNode n l stop thread =>
    exact h.callback (by rw [thread]; rfl) (by rw [thread]; exact fun m hm => List.mem_cons_of_mem _ hm)
      (by rw [thread]; exact List.Sublist.refl _) (by rw [thread]; exact id) (Or.inl rfl)
      (h.ready n (by rw [thread]; exact List.mem_cons_self))
  | pipeNull l stop thread =>
    exact h.moves (by rw [thread]; rfl) (by rw [thread]; exact fun _ hm => hm) (List.nil_sublist _) (by rw [thread]; exact id)
  | pipeDone stop thread =>
    cases stop <;> exact h.moves (by rw [thread]; rfl) (fun _ hm => (by cases hm)) (List.nil_sublist _) (by rw [thread]; exact id)
  | timeout thread => exact h.timeout thread
  | expire n l thread =>
    exact h.callback (by rw [thread]; rfl) (fun _ hm => (by cases hm)) (List.nil_sublist _) (by rw [thread]; exact id)
      (Or.inr ⟨.error, ETIMEDOUT, rfl⟩) (Poller.setResult_self ..)
  | again thread =>
    exact h.moves (by rw [thread]; rfl) (fun _ hm => (by cases hm)) (List.nil_sublist _) (by rw [thread]; exact id)
  | post begun stop room =>
    have hposted : (s.poller.pipe ++ [none]).filterMap id = s.poller.pipe.filterMap id := by
      rw [List.filterMap_append]
      exact List.append_nil _
    exact { h with
      registry := h.registry.congr rfl rfl (fun _ => rfl) rfl
      epoll := h.epoll.congr rfl rfl
      accounts := h.accounts.congr rfl hposted rfl rfl fun _ => ⟨rfl, rfl⟩
      batch := fun n hn => ⟨(h.batch n hn).1.imp_right fun hm => (hposted.symm ▸ hm : n ∈ (s.poller.pipe ++ [none]).filterMap id),
        (h.batch n hn).2⟩
      joined := fun hs => (by rcases hs with hs | hs <;> cases hs)
      room := by
        show (s.poller.pipe ++ [none]).length ≤ cap
        rw [List.length_append]
        exact room
      swept := fun hs => (by cases hs) }
  | join stop thread =>
    exact { h with
      registry := h.registry.congr rfl rfl (fun _ => rfl) rfl
      epoll := h.epoll.congr rfl rfl
      accounts := h.accounts.congr rfl rfl rfl rfl fun _ => ⟨rfl, rfl⟩
      running := fun hi => absurd (by rw [thread]; trivial) hi
      joined := fun _ => thread
      swept := fun hs => (by cases hs) }
  | sweep stop => exact h.sweep (hcap rfl) stop

/-! ## Every run -/

open Lts

theorem PollerSys.start_ok (cap maxOpenFiles pipeRd pipeWr : Nat) : (start maxOpenFiles pipeRd pipeWr).Ok cap where
  registry := Poller.create_holds maxOpenFiles pipeRd pipeWr
  epoll := fun _ _ _ h => (by cases h)
  accounts := ⟨List.Perm.refl _, fun _ h => (by cases h), fun _ h => (by cases h), fun _ h => (by cases h)⟩
  ready := fun _ h => (by cases h)
  batch := fun _ h => (by cases h)
  once := List.nodup_nil
  running := fun h => absurd trivial h
  joined := fun h => (by rcases h with h | h <;> cases h)
  room := Nat.zero_le _
  swept := fun h => (by cases h)

theorem PollerSys.ok_of_reaches {B : Balance NodeId} {cap maxOpenFiles pipeRd pipeWr : Nat} (hcap : cap ≤ pipeRead)
    {s : PollerSys} {ok : PollerSys → PollerAct → Prop}
    (run : Reaches (PollerStep B cap) ok (start maxOpenFiles pipeRd pipeWr) s) : s.Ok cap :=
  run.keeps (P := fun s => s.Ok cap) (fun _ _ _ h _ step => step.ok h fun _ => hcap) (start_ok cap maxOpenFiles pipeRd pipeWr)

/-- The nodes a step looks at are registered, or posted, or held by the thread. -/
theorem PollerStep.touched {B : Balance NodeId} {cap : Nat} {s s' : PollerSys} {a : PollerAct} {n : NodeId} (h : s.Ok cap)
    (step : PollerStep B cap s a s') (hn : n ∈ s.touched a) :
    n ∈ s.poller.live ∨ n ∈ s.poller.posted ∨ n ∈ s.thread.held := by
  have htimed : ∀ m ∈ s.poller.timed, m ∈ s.poller.live := fun m hm =>
    (h.registry.live m).2 (Or.inr (List.mem_append_left _ hm))
  have hbatch := h.batch
  have hthread : ∀ m ∈ s.thread.current, m ∈ s.poller.live ∨ m ∈ s.poller.posted ∨ m ∈ s.thread.held := by
    intro m hm
    unfold PollerPc.current at hm
    split at hm
    · rename_i ht
      rw [List.mem_singleton.1 hm]
      exact (hbatch _ (by rw [ht]; exact List.mem_cons_self)).1.imp_right Or.inl
    · rename_i ht
      rw [List.mem_singleton.1 hm]
      exact (hbatch _ (by rw [ht]; exact List.mem_cons_self)).1.imp_right Or.inl
    · rename_i ht
      exact Or.inr (Or.inr (by rw [ht]; exact hm))
    · rename_i ht
      exact Or.inr (Or.inr (by rw [ht, List.mem_singleton.1 hm]; exact List.mem_cons_self))
    · rename_i ht
      exact Or.inr (Or.inr (by rw [ht, List.mem_singleton.1 hm]; exact List.mem_cons_self))
    · cases hm
  cases a with
  | op op => exact Or.inl hn
  | setTimer => exact Or.inl (htimed n hn)
  | timeout => exact Or.inl (htimed n hn)
  | sweep => exact (List.mem_append.1 hn).elim (fun h => Or.inr (Or.inl h)) Or.inl
  | _ => exact hthread n hn

/-- **Every registration ends once**: a node is called back at most once and with its last state, every node has been once
`poller_stop` is through, and no step looks at one that has. -/
theorem ends_once (B : Balance NodeId) {cap maxOpenFiles pipeRd pipeWr : Nat} (hcap : cap ≤ pipeRead) {s : PollerSys}
    (run : Reaches (PollerStep B cap) always (PollerSys.start maxOpenFiles pipeRd pipeWr) s) :
    s.poller.called.Nodup ∧ (∀ r ∈ s.poller.calls, r.state.isSome ∧ r.node < s.poller.fresh) ∧
      (s.stop = .swept → ∀ n < s.poller.fresh, n ∈ s.poller.called) ∧
      ∀ a s', PollerStep B cap s a s' → ∀ n ∈ s.touched a, n ∉ s.poller.called := by
  have h := PollerSys.ok_of_reaches hcap run
  refine ⟨?_, fun r hr => ⟨h.accounts.results r hr, ?_⟩, fun hs n hn => ?_, fun a s' step n hn => ?_⟩
  · have hnd := h.accounts.nodup
    rw [List.nodup_append, List.nodup_append, List.nodup_append] at hnd
    exact hnd.2.1.2.1.2.1
  · exact h.accounts.mem_iff.2 (Or.inr (Or.inr (Or.inr (List.mem_map_of_mem hr))))
  · obtain ⟨hlive, hpipe⟩ := h.swept hs
    rcases h.accounts.mem_iff.1 hn with hm | hm | hm | hm
    · rw [hlive] at hm; cases hm
    · rw [Poller.posted, hpipe] at hm; cases hm
    · rw [h.joined (Or.inr hs)] at hm; cases hm
    · exact hm
  · exact h.accounts.not_called (step.touched h hn)

/-- A node deleted while the thread waits is called back through the pipe. -/
theorem ends_once_deleted : ∃ s : PollerSys, s.poller.called = [0] ∧ s.poller.called.Nodup ∧
    (∀ r ∈ s.poller.calls, r.state.isSome ∧ r.node < s.poller.fresh) ∧
      (s.stop = .swept → ∀ n < s.poller.fresh, n ∈ s.poller.called) ∧
      ∀ a s', PollerStep (unbalanced NodeId) 8192 s a s' → ∀ n ∈ s.touched a, n ∉ s.poller.called := by
  have run : Reaches (PollerStep (unbalanced NodeId) 8192) always (.start 16 3 4) (.start 16 3 4) := .start
  have run := run.next trivial (.start rfl)
  have run := run.next trivial (.op (.add ⟨⟨5, 0, by decide⟩, true, true, true⟩ ⟨.write, 5, false⟩ (-1)) trivial
    (by simp [PollerSys.start, Poller.create]) (by decide))
  have run := run.next trivial (.setTimer rfl)
  have run := run.next trivial (.op (.del 5) trivial (fun _ => id) (by decide))
  have run := run.next trivial (.wake ⟨6, 0, by decide⟩ [] true rfl (by simp) List.nodup_nil (by decide))
  have run := run.next trivial (.readPipe rfl)
  have run := run.next trivial (.pipeNode 0 [] false rfl)
  exact ⟨_, by decide, ends_once (unbalanced NodeId) (by decide) run⟩

end Tinywf
