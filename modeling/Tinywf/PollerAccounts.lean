import Tinywf.PollerThread
/-!
# PollerAccounts — where every node is

Each node ever made is in one place: live, posted through the pipe, held by the thread that is to call it back, or called
back (`Accounts`).  Its flag says that it was posted, and whoever has it finds its last state set.  The operations of any
thread keep this, and that `epoll` only has the pointers of registered nodes (`exec_accounts`, `Registered.exec`).
-/
namespace Tinywf

open InorderTree

namespace Poller

/-- The nodes in the pipe. -/
def posted (p : Poller) : List NodeId := p.pipe.filterMap id

/-- The nodes called back. -/
def called (p : Poller) : List NodeId := p.calls.map (·.node)

structure Accounts (held : List NodeId) (p : Poller) : Prop where
  places : (p.live ++ (p.posted ++ (held ++ p.called))).Perm (List.range p.fresh)
  live_flag : ∀ n ∈ p.live, (p.node n).removed = false
  posted_flag : ∀ n ∈ p.posted, (p.node n).removed = true ∧ (p.node n).state.isSome
  results : ∀ r ∈ p.calls, r.state.isSome

section Accounts

variable {B : Balance NodeId} {held : List NodeId} {p p' : Poller} {n : NodeId}

theorem Accounts.congr (h : p.Accounts held) (live : p'.live = p.live) (posted : p'.posted = p.posted)
    (calls : p'.calls = p.calls) (fresh : p'.fresh = p.fresh)
    (node : ∀ n, (p'.node n).removed = (p.node n).removed ∧ (p'.node n).state = (p.node n).state) :
    p'.Accounts held := by
  refine ⟨?_, fun n hn => ?_, fun n hn => ?_, ?_⟩
  · rw [posted, called, live, calls, fresh]
    exact h.places
  · rw [(node n).1]
    exact h.live_flag n (live ▸ hn)
  · rw [(node n).1, (node n).2]
    exact h.posted_flag n (posted ▸ hn)
  · rw [calls]
    exact h.results

theorem Accounts.nodup (h : p.Accounts held) : (p.live ++ (p.posted ++ (held ++ p.called))).Nodup :=
  h.places.nodup_iff.2 List.nodup_range

theorem Accounts.mem_iff (h : p.Accounts held) :
    n < p.fresh ↔ n ∈ p.live ∨ n ∈ p.posted ∨ n ∈ held ∨ n ∈ p.called := by
  rw [← List.mem_range, ← h.places.mem_iff, List.mem_append, List.mem_append, List.mem_append]

/-- A node called back is nowhere else. -/
theorem Accounts.not_called (h : p.Accounts held) (hn : n ∈ p.live ∨ n ∈ p.posted ∨ n ∈ held) : n ∉ p.called := by
  intro hc
  have hnd := h.nodup
  rw [List.nodup_append, List.nodup_append, List.nodup_append] at hnd
  rcases hn with hn | hn | hn
  · exact hnd.2.2 n hn n (by simp [hc]) rfl
  · exact hnd.2.1.2.2 n hn n (by simp [hc]) rfl
  · exact hnd.2.1.2.1.2.2 n hn n hc rfl

theorem Accounts.not_held (h : p.Accounts held) (hn : n ∈ p.live ∨ n ∈ p.posted) : n ∉ held := by
  intro hc
  have hnd := h.nodup
  rw [List.nodup_append, List.nodup_append] at hnd
  rcases hn with hn | hn
  · exact hnd.2.2 n hn n (by simp [hc]) rfl
  · exact hnd.2.1.2.2 n hn n (by simp [hc]) rfl

/-! ## A node moves on -/

theorem Accounts.forget (h : p.Accounts held) (hn : n ∈ p.live) : (p.forget n).Accounts (n :: held) := by
  refine ⟨?_, fun m hm => h.live_flag m (List.mem_of_mem_erase hm), h.posted_flag, h.results⟩
  refine List.Perm.trans ?_ h.places
  show (p.live.erase n ++ (p.posted ++ (n :: held ++ p.called))).Perm _
  rw [← List.append_assoc, ← List.append_assoc]
  have hmid : (p.live.erase n ++ p.posted ++ n :: held).Perm (n :: (p.live.erase n ++ p.posted ++ held)) :=
    List.perm_middle
  refine (hmid.append_right _).trans ?_
  rw [← List.append_assoc, ← List.append_assoc]
  exact (((List.perm_cons_erase hn).symm.append_right _).append_right _).append_right _

theorem Accounts.callback (h : p.Accounts (n :: held)) (hs : (p.node n).state.isSome) : (p.callback n).Accounts held := by
  have hcalled : (p.callback n).called = p.called ++ [n] := by
    rw [called, Poller.callback, List.map_append]
    rfl
  refine ⟨?_, h.live_flag, h.posted_flag, fun r hr => ?_⟩
  · rw [hcalled]
    refine List.Perm.trans ?_ h.places
    refine List.Perm.append_left _ (List.Perm.append_left _ ?_)
    rw [← List.append_assoc]
    exact List.perm_append_singleton ..
  · rcases List.mem_append.1 hr with hr | hr
    · exact h.results r hr
    · rw [List.mem_singleton.1 hr]
      exact hs

theorem setResult_node (n : NodeId) (state : PrSt) (error : Int) (p : Poller) (m : NodeId) :
    (p.setResult n state error).node m =
      if m = n then { p.node n with state := some state, error := error } else p.node m := by
  rw [setResult]
  dsimp only
  rw [Function.update_apply]

theorem Accounts.setResult (n : NodeId) (state : PrSt) (error : Int) (h : p.Accounts held) :
    (p.setResult n state error).Accounts held := by
  refine ⟨h.places, fun m hm => ?_, fun m hm => ?_, h.results⟩
  · have hm' := h.live_flag m hm
    rw [setResult_node]
    split
    · rename_i he
      exact he ▸ hm'
    · exact hm'
  · have hm' := h.posted_flag m hm
    rw [setResult_node]
    split
    · rename_i he
      exact ⟨he ▸ hm'.1, rfl⟩
    · exact hm'

theorem setResult_self (n : NodeId) (state : PrSt) (error : Int) (p : Poller) :
    ((p.setResult n state error).node n).state.isSome := by
  rw [setResult_node, if_pos rfl]
  rfl

theorem Accounts.post (state : PrSt) (h : p.Accounts (n :: held)) : (p.post n state).Accounts held := by
  have hset := h.setResult n state 0
  have hsome := setResult_self n state 0 p
  unfold Poller.post
  dsimp only
  split
  · exact hset.callback hsome
  · generalize p.setResult n state 0 = q at hset hsome
    have hlive : ∀ m ∈ q.live, m ≠ n := by
      rintro m hm rfl
      exact hset.not_held (Or.inl hm) List.mem_cons_self
    have hposted : ∀ m ∈ q.posted, m ≠ n := by
      rintro m hm rfl
      exact hset.not_held (Or.inr hm) List.mem_cons_self
    refine ⟨?_, fun m hm => ?_, fun m hm => ?_, hset.results⟩
    · refine List.Perm.trans ?_ hset.places
      refine List.Perm.append_left _ ?_
      show ((q.pipe ++ [some n]).filterMap id ++ (held ++ q.called)).Perm _
      rw [List.filterMap_append]
      show ((q.posted ++ [n]) ++ (held ++ q.called)).Perm _
      rw [List.append_assoc]
      exact List.Perm.refl _
    · show (Function.update q.node n _ m).removed = false
      rw [Function.update_of_ne (hlive m hm)]
      exact hset.live_flag m hm
    · have hm : m ∈ q.posted ++ [n] := by
        have : (q.pipe ++ [some n]).filterMap id = q.posted ++ [n] := by
          rw [List.filterMap_append]
          rfl
        exact this ▸ hm
      show (Function.update q.node n _ m).removed = true ∧ (Function.update q.node n _ m).state.isSome
      rcases List.mem_append.1 hm with hm | hm
      · rw [Function.update_of_ne (hposted m hm)]
        exact hset.posted_flag m hm
      · rw [List.mem_singleton.1 hm, Function.update_self]
        exact ⟨rfl, hsome⟩

theorem Accounts.newNode (data : PollerData) (event : Nat) (res : Bool) (time : Option Timespec)
    (h : p.Accounts held) : (p.newNode data event res time).Accounts held := by
  have hold : ∀ m < p.fresh, (p.newNode data event res time).node m = p.node m := fun m hm =>
    Function.update_of_ne (Nat.ne_of_lt hm) ..
  refine ⟨?_, fun m hm => ?_, fun m hm => ?_, h.results⟩
  · show (p.fresh :: p.live ++ (p.posted ++ (held ++ p.called))).Perm (List.range (p.fresh + 1))
    rw [List.range_succ, List.cons_append]
    exact (h.places.cons _).trans (List.perm_append_singleton ..).symm
  · rcases List.mem_cons.1 hm with rfl | hm
    · show (Function.update p.node p.fresh _ p.fresh).removed = false
      rw [Function.update_self]
    · rw [hold m (h.mem_iff.2 (Or.inl hm))]
      exact h.live_flag m hm
  · rw [hold m (h.mem_iff.2 (Or.inr (Or.inl hm)))]
    exact h.posted_flag m hm

theorem Accounts.leave (h : p.Accounts held) (hn : n ∈ p.live) : (p.leave n).Accounts (n :: held) := by
  have hforget := h.forget hn
  unfold Poller.leave
  dsimp only
  split
  · exact hforget.congr rfl rfl rfl rfl fun _ => ⟨rfl, rfl⟩
  · exact hforget

/-- The pipe is read. -/
theorem Accounts.read (k : Nat) (h : p.Accounts held) :
    { p with pipe := p.pipe.drop k }.Accounts ((p.pipe.take k).filterMap id ++ held) := by
  have hsplit : p.posted = (p.pipe.take k).filterMap id ++ (p.pipe.drop k).filterMap id := by
    rw [← List.filterMap_append, List.take_append_drop, posted]
  refine ⟨?_, h.live_flag, fun m hm => h.posted_flag m ?_, h.results⟩
  · refine List.Perm.trans ?_ h.places
    rw [hsplit]
    refine List.Perm.append_left _ ?_
    show ((p.pipe.drop k).filterMap id ++ (((p.pipe.take k).filterMap id ++ held) ++ p.called)).Perm _
    rw [List.append_assoc, List.append_assoc]
    exact List.perm_append_comm_assoc ..
  · rw [hsplit]
    exact List.mem_append_right _ hm

/-! ## What an operation leaves alone -/

/-- An operation lets nodes be what they are, and only calls back when the poller is stopped. -/
structure Onward (p p' : Poller) : Prop where
  stopped : p'.stopped = p.stopped
  calls : p.stopped = false → p'.calls = p.calls
  fresh : p.fresh ≤ p'.fresh
  data : ∀ n < p.fresh, (p'.node n).data = (p.node n).data
  state : ∀ n < p.fresh, (p.node n).state.isSome → (p'.node n).state.isSome

theorem Onward.of_eq (stopped : p'.stopped = p.stopped) (calls : p'.calls = p.calls) (fresh : p'.fresh = p.fresh)
    (node : p'.node = p.node) : p.Onward p' :=
  ⟨stopped, fun _ => calls, Nat.le_of_eq fresh.symm, fun n _ => by rw [node], fun n _ h => by rw [node]; exact h⟩

theorem Onward.refl (p : Poller) : p.Onward p := .of_eq rfl rfl rfl rfl

theorem Onward.trans {p'' : Poller} (h : p.Onward p') (h' : p'.Onward p'') : p.Onward p'' where
  stopped := h'.stopped.trans h.stopped
  calls := fun hs => (h'.calls (h.stopped.trans hs)).trans (h.calls hs)
  fresh := Nat.le_trans h.fresh h'.fresh
  data := fun n hn => (h'.data n (Nat.lt_of_lt_of_le hn h.fresh)).trans (h.data n hn)
  state := fun n hn hs => h'.state n (Nat.lt_of_lt_of_le hn h.fresh) (h.state n hn hs)

theorem onward_insertTimeo (timeout : Int) (n : NodeId) (p : Poller) : p.Onward (p.insertTimeo B timeout n) := by
  obtain ⟨-, -, hfresh, hnode, -, -, hcalls, hstopped⟩ := insertTimeo_frame (B := B) timeout n p
  exact .of_eq hstopped hcalls hfresh hnode

theorem onward_newNode (data : PollerData) (event : Nat) (res : Bool) (time : Option Timespec) (p : Poller) :
    p.Onward (p.newNode data event res time) := by
  have hold : ∀ m < p.fresh, (p.newNode data event res time).node m = p.node m := fun m hm =>
    Function.update_of_ne (Nat.ne_of_lt hm) ..
  exact ⟨rfl, fun _ => rfl, Nat.le_succ _, fun m hm => by rw [hold m hm], fun m hm hs => by rw [hold m hm]; exact hs⟩

theorem onward_leave (n : NodeId) (p : Poller) : p.Onward (p.leave n) := by
  unfold leave
  dsimp only
  split <;> exact .of_eq rfl rfl rfl rfl

theorem onward_setResult (n : NodeId) (state : PrSt) (error : Int) (p : Poller) :
    p.Onward (p.setResult n state error) := by
  refine ⟨rfl, fun _ => rfl, Nat.le_refl _, fun m _ => ?_, fun m _ hs => ?_⟩
  · rw [setResult_node]
    split
    · rename_i he
      rw [he]
    · rfl
  · rw [setResult_node]
    split
    · rfl
    · exact hs

theorem onward_post (n : NodeId) (state : PrSt) (p : Poller) : p.Onward (p.post n state) := by
  have hset := onward_setResult n state 0 p
  unfold post
  dsimp only
  generalize p.setResult n state 0 = q at hset
  refine hset.trans ?_
  split
  · rename_i hs
    exact ⟨rfl, fun h => (by rw [hs] at h; cases h), Nat.le_refl _, fun _ _ => rfl, fun _ _ h => h⟩
  · refine ⟨rfl, fun _ => rfl, Nat.le_refl _, fun m _ => ?_, fun m _ hs => ?_⟩
    · show (Function.update q.node n _ m).data = _
      by_cases hm : m = n
      · rw [hm, Function.update_self]
      · rw [Function.update_of_ne hm]
    · show (Function.update q.node n _ m).state.isSome
      by_cases hm : m = n
      · rw [hm, Function.update_self]
        exact hm ▸ hs
      · rw [Function.update_of_ne hm]
        exact hs

/-- A node goes into its place: nothing moves. -/
theorem Accounts.insertTimeo (timeout : Int) (h : p.Accounts held) : (p.insertTimeo B timeout n).Accounts held := by
  obtain ⟨-, hlive, hfresh, hnode, -, hpipe, hcalls, -⟩ := insertTimeo_frame (B := B) timeout n p
  exact h.congr hlive (congrArg (List.filterMap id) hpipe) hcalls hfresh fun m => by rw [hnode]; exact ⟨rfl, rfl⟩

/-! ## The operations -/

/-- What an operation of any thread does to the places of nodes. -/
theorem exec_accounts {op : PollerOp} (free : op.Public) (reg : p.Holds [] p.nodes) (h : p.Accounts held) :
    (p.exec B op).2.Accounts held ∧ p.Onward (p.exec B op).2 := by
  cases op with
  | start => cases free
  | removeNode n => cases free
  | handleTimeout time => cases free
  | add ans data timeout =>
    simp only [exec, Poller.add]
    split
    · exact ⟨h, .refl p⟩
    split
    · exact ⟨h, .refl p⟩
    split
    · exact ⟨h, .refl p⟩
    · rename_i event needRes _ _ _
      have hput : ∀ time, (((p.newNode data event needRes time).setFd data.fd.toNat event p.fresh).insertTimeo B timeout
          p.fresh).Accounts held := fun time =>
        ((h.newNode data event needRes time).congr rfl rfl rfl rfl (fun _ => ⟨rfl, rfl⟩) : Accounts held
          ((p.newNode data event needRes time).setFd data.fd.toNat event p.fresh)).insertTimeo timeout
      have hon : ∀ time, p.Onward (((p.newNode data event needRes time).setFd data.fd.toNat event p.fresh).insertTimeo B
          timeout p.fresh) := fun time => by
        refine ((onward_newNode data event needRes time p).trans ?_).trans (onward_insertTimeo timeout p.fresh _)
        exact .of_eq rfl rfl rfl rfl
      exact ⟨(hput _).congr rfl rfl rfl rfl fun _ => ⟨rfl, rfl⟩, (hon _).trans (.of_eq rfl rfl rfl rfl)⟩
  | mod ans data timeout =>
    simp only [exec, Poller.mod]
    split
    · exact ⟨h, .refl p⟩
    split
    · exact ⟨h, .refl p⟩
    split
    · exact ⟨h, .refl p⟩
    · rename_i event needRes _ _ old hold _
      have hlive := ((reg.nodes _ old).1 hold).1
      have hunlink : ((p.setFd data.fd.toNat event p.fresh).unlink B old).Accounts held :=
        h.congr rfl rfl rfl rfl fun _ => ⟨rfl, rfl⟩
      have hpost := (hunlink.forget hlive).post .modified
      have hpon : p.Onward ((((p.setFd data.fd.toNat event p.fresh).unlink B old).forget old).post old .modified) := by
        refine Onward.trans ?_ (onward_post old .modified _)
        exact .of_eq rfl rfl rfl rfl
      have hfresh := (post_frame old .modified (((p.setFd data.fd.toNat event p.fresh).unlink B old).forget old)).2.2.2.1
      generalize (((p.setFd data.fd.toNat event p.fresh).unlink B old).forget old).post old .modified = q at hpost hpon hfresh
      have hput := fun time => (hpost.newNode data event needRes time).insertTimeo (B := B) (n := p.fresh) timeout
      have hon := fun time => (onward_newNode data event needRes time q).trans
        (onward_insertTimeo (B := B) timeout p.fresh _)
      exact ⟨(hput _).congr rfl rfl rfl rfl fun _ => ⟨rfl, rfl⟩, hpon.trans ((hon _).trans (.of_eq rfl rfl rfl rfl))⟩
  | del fd =>
    simp only [exec, Poller.del]
    split
    · exact ⟨h, .refl p⟩
    split
    · exact ⟨h, .refl p⟩
    split
    · exact ⟨h, .refl p⟩
    · rename_i n hn
      have hlive := ((reg.nodes _ n).1 hn).1
      have hunlink : (p.unlink B n).Accounts held := h.congr rfl rfl rfl rfl fun _ => ⟨rfl, rfl⟩
      have hon : p.Onward (p.unlink B n) := .of_eq rfl rfl rfl rfl
      exact ⟨(hunlink.leave hlive).post .deleted, hon.trans ((onward_leave n _).trans (onward_post n .deleted _))⟩
  | setTimeout ans fd timeout =>
    simp only [exec, Poller.setTimeout]
    split
    · exact ⟨h, .refl p⟩
    split
    · exact ⟨h, .refl p⟩
    split
    · exact ⟨h, .refl p⟩
    · rename_i n _
      have htime : ∀ time, { p.unlink B n with timeout := Function.update (p.unlink B n).timeout n time }.Accounts held :=
        fun time => h.congr rfl rfl rfl rfl fun _ => ⟨rfl, rfl⟩
      refine ⟨(htime _).insertTimeo timeout, Onward.trans ?_ (onward_insertTimeo timeout n _)⟩
      exact .of_eq rfl rfl rfl rfl
  | addTimer ans value =>
    simp only [exec, Poller.addTimer]
    split
    · exact ⟨h, .refl p⟩
    · exact ⟨(h.newNode _ _ _ _).insertTimeo 0, (onward_newNode _ _ _ _ p).trans (onward_insertTimeo 0 p.fresh _)⟩

/-- With no node registered, an operation that brings none fails. -/
theorem exec_none {op : PollerOp} (free : op.Public) (old : ¬ op.Brings) (reg : p.Holds [] p.nodes) (none : p.live = []) :
    (p.exec B op).2 = p := by
  have hnodes : ∀ fd : Nat, p.nodes fd = .none := fun fd => by
    refine Option.eq_none_iff_forall_ne_some.2 fun n hn => ?_
    have := ((reg.nodes fd n).1 hn).1
    rw [none] at this
    cases this
  cases op with
  | start => cases free
  | add => exact absurd trivial old
  | mod => exact absurd trivial old
  | addTimer => exact absurd trivial old
  | removeNode n => cases free
  | handleTimeout time => cases free
  | del fd =>
    simp only [exec, Poller.del, hnodes]
    split
    · rfl
    · split <;> rfl
  | setTimeout ans fd timeout =>
    simp only [exec, Poller.setTimeout, hnodes]
    split
    · rfl
    · split <;> rfl

/-! ## What is registered with `epoll` -/

/-- A pointer that `epoll` has is that of a registered node. -/
def Registered (p : Poller) : Prop := ∀ fd ev n, p.epoll fd = some (ev, n) → p.nodes fd = some n

theorem Registered.congr (h : p.Registered) (epoll : p'.epoll = p.epoll) (nodes : p'.nodes = p.nodes) :
    p'.Registered := by
  unfold Registered
  rw [epoll, nodes]
  exact h

theorem Registered.set {fd ev : Nat} (h : p.Registered) (epoll : p'.epoll = Function.update p.epoll fd (some (ev, n)))
    (nodes : p'.nodes = Function.update p.nodes fd (some n)) : p'.Registered := by
  intro fd' ev' m hm
  rw [epoll] at hm
  rw [nodes]
  by_cases he : fd' = fd
  · rw [he, Function.update_self] at hm ⊢
    cases hm
    rfl
  · rw [Function.update_of_ne he] at hm ⊢
    exact h _ _ _ hm

theorem Registered.leave (n : NodeId) (h : p.Registered) : (p.leave n).Registered := by
  unfold Poller.leave
  dsimp only
  split
  · rename_i hfd
    intro fd ev m hm
    have hm : Function.update p.epoll (p.node n).data.fd.toNat none fd = some (ev, m) := hm
    show Function.update p.nodes (p.node n).data.fd.toNat none fd = some m
    by_cases he : fd = (p.node n).data.fd.toNat
    · rw [he, Function.update_self] at hm
      cases hm
    · rw [Function.update_of_ne he] at hm ⊢
      exact h _ _ _ hm
  · exact h

theorem post_epoll (n : NodeId) (state : PrSt) (p : Poller) : (p.post n state).epoll = p.epoll := by
  unfold post
  dsimp only
  split <;> rfl

theorem Registered.post (n : NodeId) (state : PrSt) (h : p.Registered) : (p.post n state).Registered :=
  h.congr (post_epoll n state p) (post_frame n state p).2.2.1

theorem Registered.exec {op : PollerOp} (free : op.Public) (h : p.Registered) : (p.exec B op).2.Registered := by
  cases op with
  | start => cases free
  | removeNode n => cases free
  | handleTimeout time => cases free
  | add ans data timeout =>
    simp only [Poller.exec, Poller.add]
    split
    · exact h
    split
    · exact h
    split
    · exact h
    · obtain ⟨hnodes, -, -, -, hepoll, -⟩ := insertTimeo_frame (B := B) timeout p.fresh ((p.newNode data _ _ _).setFd
        data.fd.toNat _ p.fresh)
      exact h.set hepoll (by dsimp only; rw [hnodes]; rfl)
  | mod ans data timeout =>
    simp only [Poller.exec, Poller.mod]
    split
    · exact h
    split
    · exact h
    split
    · exact h
    · rename_i event needRes _ _ old _ _
      have hnodes := (post_frame old .modified (((p.setFd data.fd.toNat event p.fresh).unlink B old).forget old)).2.2.1
      have hepoll := post_epoll old .modified (((p.setFd data.fd.toNat event p.fresh).unlink B old).forget old)
      generalize (((p.setFd data.fd.toNat event p.fresh).unlink B old).forget old).post old .modified = q at hnodes hepoll
      obtain ⟨hn, -, -, -, he, -⟩ := insertTimeo_frame (B := B) timeout p.fresh (q.newNode data event needRes
        (if 0 ≤ timeout then some (ans.clock.after timeout.toNat) else none))
      exact h.set (he.trans hepoll) (by dsimp only; rw [hn]; exact congrArg (Function.update · _ _) hnodes)
  | del fd =>
    simp only [Poller.exec, Poller.del]
    split
    · exact h
    split
    · exact h
    split
    · exact h
    · rename_i n hn
      have hunlink : (p.unlink B n).Registered := h.congr rfl rfl
      exact (hunlink.leave n).post n .deleted
  | setTimeout ans fd timeout =>
    simp only [Poller.exec, Poller.setTimeout]
    split
    · exact h
    split
    · exact h
    split
    · exact h
    · obtain ⟨hnodes, -, -, -, hepoll, -⟩ := insertTimeo_frame (B := B) timeout _ _
      exact h.congr hepoll hnodes
  | addTimer ans value =>
    simp only [Poller.exec, Poller.addTimer]
    split
    · exact h
    · obtain ⟨hnodes, -, -, -, hepoll, -⟩ := insertTimeo_frame (B := B) 0 p.fresh (p.newNode ⟨.timer, -1, false⟩ 0 false _)
      exact h.congr hepoll hnodes

/-! ## Many nodes at once -/

theorem leave_live (n : NodeId) (p : Poller) : (p.leave n).live = p.live.erase n ∧ (p.leave n).node = p.node ∧
    (p.leave n).pipe = p.pipe ∧ (p.leave n).toTimeoQueue = p.toTimeoQueue ∧ (p.leave n).stopped = p.stopped := by
  unfold leave
  dsimp only
  split <;> exact ⟨rfl, rfl, rfl, rfl, rfl⟩

theorem Accounts.leave_all {l : List NodeId} (h : p.Accounts held) (hl : ∀ n ∈ l, n ∈ p.live) (nodup : l.Nodup) :
    (l.foldl (fun q n => Poller.leave n q) p).Accounts (l.reverse ++ held) ∧
      p.Onward (l.foldl (fun q n => Poller.leave n q) p) ∧ (l.foldl (fun q n => Poller.leave n q) p).pipe = p.pipe := by
  induction l generalizing p held with
  | nil => exact ⟨h, .refl p, rfl⟩
  | cons n l ih =>
    have hnd := List.nodup_cons.1 nodup
    obtain ⟨hlive, -, hpipe, -⟩ := leave_live n p
    have hrest : ∀ m ∈ l, m ∈ (p.leave n).live := fun m hm => by
      have hne : m ≠ n := fun he => hnd.1 (he ▸ hm)
      rw [hlive]
      exact (List.mem_erase_of_ne hne).2 (hl m (List.mem_cons_of_mem _ hm))
    obtain ⟨h1, h2, h3⟩ := ih (h.leave (hl n List.mem_cons_self)) hrest hnd.2
    rw [List.reverse_cons, List.append_assoc]
    exact ⟨h1, (onward_leave n p).trans h2, h3.trans hpipe⟩

theorem Accounts.held_perm {held' : List NodeId} (h : p.Accounts held) (perm : held.Perm held') : p.Accounts held' :=
  ⟨((((perm.symm.append_right _).append_left _).append_left _)).trans h.places, h.live_flag, h.posted_flag, h.results⟩

theorem Registered.leave_all {l : List NodeId} (h : p.Registered) :
    (l.foldl (fun q n => Poller.leave n q) p).Registered := by
  induction l generalizing p with
  | nil => exact h
  | cons n l ih => exact ih (h.leave n)

theorem Accounts.callback_all {l : List NodeId} (h : p.Accounts (l ++ held)) (hs : ∀ n ∈ l, (p.node n).state.isSome) :
    (l.foldl (fun q n => Poller.callback n q) p).Accounts held ∧
      ∃ calls, l.foldl (fun q n => Poller.callback n q) p = { p with calls := calls } := by
  induction l generalizing p with
  | nil => exact ⟨h, p.calls, rfl⟩
  | cons n l ih =>
    obtain ⟨h1, calls, h2⟩ := ih (p := p.callback n) (h.callback (hs n List.mem_cons_self)) fun m hm =>
      hs m (List.mem_cons_of_mem _ hm)
    exact ⟨h1, calls, h2⟩

/-! ## The sweep -/

theorem drainTree_perm {k : Nat} {t : BinaryTree NodeId} {l : List NodeId} (nodup : (inorder t).Nodup)
    (hk : (inorder t).length ≤ k) : (drainTree B k t l).Perm (inorder t ++ l) := by
  induction k generalizing t l with
  | zero =>
    rw [List.eq_nil_of_length_eq_zero (Nat.le_zero.1 hk), drainTree]
    exact List.Perm.refl _
  | succ k ih =>
    cases t with
    | nil => exact List.Perm.refl _
    | node n a b =>
      have hmem : n ∈ inorder (.node n a b) := by simp [inorder]
      have herase := B.erase_inorder n _ nodup hmem
      have hperm := List.perm_cons_erase hmem
      have hlen := hperm.length_eq
      rw [List.length_cons] at hlen
      rw [drainTree]
      refine (ih (by rw [herase]; exact nodup.erase n) (by rw [herase]; omega)).trans ?_
      rw [herase]
      exact List.perm_middle.trans (hperm.symm.append_right l)

theorem leave_nodes {fd : Nat} (n : NodeId) (p : Poller) :
    (∀ m, (p.leave n).nodes fd = some m → p.nodes fd = some m ∧ (p.node n).data.fd ≠ fd) ∧
      ∀ r, (p.leave n).epoll fd = some r → p.epoll fd = some r ∧ (p.node n).data.fd ≠ fd := by
  unfold leave
  dsimp only
  split
  · show (∀ m, Function.update p.nodes _ none fd = some m → _) ∧ ∀ r, Function.update p.epoll _ none fd = some r → _
    by_cases he : fd = (p.node n).data.fd.toNat
    · rw [he, Function.update_self, Function.update_self]
      exact ⟨fun m hm => (by cases hm), fun r hr => (by cases hr)⟩
    · rw [Function.update_of_ne he, Function.update_of_ne he]
      have hne : (p.node n).data.fd ≠ fd := fun h => he (by rw [h]; rfl)
      exact ⟨fun m hm => ⟨hm, hne⟩, fun r hr => ⟨hr, hne⟩⟩
  · rename_i hneg
    have hne : (p.node n).data.fd ≠ fd := fun h => hneg (by rw [h]; exact Int.natCast_nonneg fd)
    exact ⟨fun m hm => ⟨hm, hne⟩, fun r hr => ⟨hr, hne⟩⟩

theorem Accounts.stop_all {l : List NodeId} (h : p.Accounts held) (hl : ∀ n, n ∈ p.live ↔ n ∈ l) (nodup : l.Nodup)
    (once : p.live.Nodup) :
    (l.foldl (fun q n => stopNode n q) p).Accounts held ∧ (l.foldl (fun q n => stopNode n q) p).live = [] ∧
      (l.foldl (fun q n => stopNode n q) p).pipe = p.pipe ∧
      (l.foldl (fun q n => stopNode n q) p).toTimeoQueue = p.toTimeoQueue ∧
      (l.foldl (fun q n => stopNode n q) p).stopped = p.stopped ∧
      ∀ fd : Nat, (∀ m, (l.foldl (fun q n => stopNode n q) p).nodes fd = some m →
        p.nodes fd = some m ∧ ∀ n ∈ l, (p.node n).data.fd ≠ fd) ∧
        ∀ r, (l.foldl (fun q n => stopNode n q) p).epoll fd = some r →
          p.epoll fd = some r ∧ ∀ n ∈ l, (p.node n).data.fd ≠ fd := by
  induction l generalizing p with
  | nil =>
    refine ⟨h, List.eq_nil_iff_forall_not_mem.2 fun n hn => ?_, rfl, rfl, rfl, fun fd => ?_⟩
    · cases (hl n).1 hn
    · exact ⟨fun m hm => ⟨hm, by simp⟩, fun r hr => ⟨hr, by simp⟩⟩
  | cons n l ih =>
    have hnd := List.nodup_cons.1 nodup
    obtain ⟨hlive, hnode, hpipe, hqueue, hstopped⟩ := leave_live n p
    have hacc : (stopNode n p).Accounts held :=
      ((h.leave ((hl n).2 List.mem_cons_self)).setResult n .stopped 0).callback (setResult_self ..)
    have hrest : ∀ m, m ∈ (stopNode n p).live ↔ m ∈ l := fun m => by
      show m ∈ (p.leave n).live ↔ _
      rw [hlive, once.mem_erase_iff, hl, List.mem_cons]
      exact ⟨fun hm => hm.2.resolve_left hm.1, fun hm => ⟨fun he => hnd.1 (he ▸ hm), Or.inr hm⟩⟩
    have honce : (stopNode n p).live.Nodup := by
      show (p.leave n).live.Nodup
      rw [hlive]
      exact once.erase n
    obtain ⟨h1, h2, h3, h4, h5, h6⟩ := ih hacc hrest hnd.2 honce
    have hdata : ∀ m, ((stopNode n p).node m).data = (p.node m).data := fun m => by
      show (((p.leave n).setResult n .stopped 0).node m).data = _
      rw [setResult_node, hnode]
      split
      · rename_i he
        rw [he]
      · rfl
    refine ⟨h1, h2, h3.trans hpipe, h4.trans hqueue, h5.trans hstopped, fun fd => ⟨fun m hm => ?_, fun r hr => ?_⟩⟩
    · obtain ⟨h7, h8⟩ := (h6 fd).1 m hm
      obtain ⟨h9, h10⟩ := (leave_nodes n p).1 m h7
      refine ⟨h9, fun m' hm' => ?_⟩
      rcases List.mem_cons.1 hm' with rfl | hm'
      · exact h10
      · exact hdata m' ▸ h8 m' hm'
    · obtain ⟨h7, h8⟩ := (h6 fd).2 r hr
      obtain ⟨h9, h10⟩ := (leave_nodes n p).2 r h7
      refine ⟨h9, fun m' hm' => ?_⟩
      rcases List.mem_cons.1 hm' with rfl | hm'
      · exact h10
      · exact hdata m' ▸ h8 m' hm'

/-- **The sweep of `poller_stop`** calls back every node that is left. -/
theorem sweep_accounts (h : p.Accounts held) (reg : p.Holds [] p.nodes) (hr : p.Registered) :
    (p.sweep B).Accounts held ∧ (p.sweep B).live = [] ∧ (p.sweep B).pipe = p.pipe ∧ (p.sweep B).stopped = p.stopped ∧
      (p.sweep B).Holds [] (p.sweep B).nodes ∧ (p.sweep B).Registered := by
  have hperm : (p.noTimeoList ++ drainTree B (inorder p.timeoTree).length p.timeoTree p.timeoList).Perm p.members := by
    refine ((drainTree_perm reg.queue.tree_nodup (Nat.le_refl _)).append_left _).trans ?_
    rw [TimeoQueue.members, TimeoQueue.timed]
    exact List.perm_append_comm.trans (List.perm_append_comm.append_right _)
  have hlive : ∀ n, n ∈ p.live ↔
      n ∈ p.noTimeoList ++ drainTree B (inorder p.timeoTree).length p.timeoTree p.timeoList := fun n => by
    rw [hperm.mem_iff, reg.live]
    exact ⟨fun hm => hm.resolve_left (by simp), Or.inr⟩
  have hacc : p.gathered.Accounts held := h.congr rfl rfl rfl rfl fun _ => ⟨rfl, rfl⟩
  obtain ⟨h1, h2, h3, h4, h5, h6⟩ := hacc.stop_all hlive (hperm.nodup_iff.2 reg.queue.nodup) reg.once
  -- a descriptor left would be that of a node swept
  have hgone : ∀ (fd : Nat) n, p.nodes fd = some n →
      ¬ ∀ m ∈ p.noTimeoList ++ drainTree B (inorder p.timeoTree).length p.timeoTree p.timeoList,
        (p.node m).data.fd ≠ fd := fun fd n hn hall => by
    obtain ⟨hm, hfd⟩ := (reg.nodes fd n).1 hn
    exact hall n ((hlive n).1 hm) hfd
  have hnodes : ∀ fd n, (p.sweep B).nodes fd ≠ some n := fun fd n hn => by
    obtain ⟨hn, hall⟩ := (h6 fd).1 n hn
    refine hgone fd n ?_ hall
    have hn : Function.update (Function.update p.nodes p.pipeRd none) p.pipeWr none fd = some n := hn
    rw [Function.update_apply, Function.update_apply] at hn
    split at hn
    · cases hn
    · split at hn
      · cases hn
      · exact hn
  have hqueue : (p.sweep B).toTimeoQueue = p.gathered.toTimeoQueue := h4
  refine ⟨h1, h2, h3, h5, ⟨?_, fun n => ?_, by simp, List.nodup_nil, fun fd n => ?_, ?_, fun n hn => ?_⟩, fun fd ev n hn => ?_⟩
  · rw [hqueue]
    exact ⟨.nil, .nil, rfl, rfl, List.nodup_nil, fun n hn => by cases hn⟩
  · rw [hqueue, show (p.sweep B).live = [] from h2]
    exact ⟨fun hn => (by cases hn), fun hn => (by rcases hn with hn | hn <;> cases hn)⟩
  · refine ⟨fun hn => absurd hn (hnodes fd n), fun hn => ?_⟩
    rw [show (p.sweep B).live = [] from h2] at hn
    cases hn.1
  · rw [show (p.sweep B).live = [] from h2]
    exact List.nodup_nil
  · rw [show (p.sweep B).live = [] from h2] at hn
    cases hn
  · obtain ⟨hn, hall⟩ := (h6 fd).2 _ hn
    exact absurd hall (hgone fd n (hr fd ev n hn))

end Accounts

end Poller

end Tinywf
