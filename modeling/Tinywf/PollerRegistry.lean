import Tinywf.Poller
import Tinywf.Lts
/-!
# PollerRegistry — what every operation on the registry keeps

`Holds out nd s`: the timers are sorted and every live node stands in one place of them, but for those of `out`, which are
out of their place; and `nd` says which live node has which descriptor, as `nodes` does before and after an operation.
A node comes out (`Holds.unlink`) and goes back in (`Holds.insertTimeo`), is dropped (`Holds.drop`), and a new one comes
(`Holds.newNode`); each operation is a sequence of these (`exec_holds`).
-/
namespace Tinywf

open InorderTree

namespace Poller

structure Holds (out : List NodeId) (nd : Nat → Option NodeId) (s : Poller) : Prop where
  queue : s.toTimeoQueue.Ok
  live : ∀ n, n ∈ s.live ↔ n ∈ out ∨ n ∈ s.members
  apart : ∀ n ∈ out, n ∉ s.members
  nodup : out.Nodup
  nodes : ∀ (fd : Nat) n, nd fd = some n ↔ n ∈ s.live ∧ (s.node n).data.fd = fd
  once : s.live.Nodup
  old : ∀ n ∈ s.live, n < s.fresh

variable {B : Balance NodeId} {out : List NodeId} {nd : Nat → Option NodeId} {s s' : Poller} {n : NodeId}

/-- What is not of the registry does not matter. -/
theorem Holds.congr (h : s.Holds out nd) (queue : s'.toTimeoQueue = s.toTimeoQueue) (live : s'.live = s.live)
    (data : ∀ n, (s'.node n).data = (s.node n).data) (fresh : s'.fresh = s.fresh) : s'.Holds out nd := by
  refine ⟨queue ▸ h.queue, fun m => ?_, ?_, h.nodup, fun fd m => ?_, live ▸ h.once, fun m hm => ?_⟩
  · rw [live, queue]
    exact h.live m
  · rw [queue]
    exact h.apart
  · rw [live, data]
    exact h.nodes fd m
  · rw [fresh]
    exact h.old m (live ▸ hm)

/-! ## The parts of the operations -/

theorem Holds.unlink (h : s.Holds [] nd) (hn : n ∈ s.live) :
    (s.unlink B n).Holds [n] nd ∧
      (s.toTimeoQueue.unlink B n).inRbtree n = false := by
  have hm : n ∈ s.members := ((h.live n).1 hn).resolve_left (by simp)
  obtain ⟨hok, hmembers, -, -, hflag⟩ := TimeoQueue.unlink_ok (B := B) h.queue hm
  refine ⟨⟨hok, fun m => ?_, fun m hm => ?_, List.nodup_singleton n, h.nodes, h.once, h.old⟩, hflag⟩
  · show m ∈ s.live ↔ m ∈ [n] ∨ m ∈ (s.toTimeoQueue.unlink B n).members
    rw [hmembers, h.live, List.mem_singleton]
    constructor
    · intro hm'
      by_cases hmn : m = n
      · exact Or.inl hmn
      · exact Or.inr ⟨hm'.resolve_left (by simp), hmn⟩
    · rintro (rfl | ⟨hm', -⟩)
      · exact Or.inr hm
      · exact Or.inr hm'
  · rw [List.mem_singleton.1 hm]
    exact fun hm' => ((hmembers n).1 hm').2 rfl

/-- A node that is out of its place is registered no longer. -/
theorem Holds.drop (h : s.Holds (n :: out) nd) : (s.forget n).Holds out
    (if 0 ≤ (s.node n).data.fd then Function.update nd (s.node n).data.fd.toNat none else nd) := by
  have hnd := List.nodup_cons.1 h.nodup
  have hn : n ∈ s.live := (h.live n).2 (Or.inl List.mem_cons_self)
  refine ⟨h.queue, fun m => ?_, fun m hm => h.apart m (List.mem_cons_of_mem _ hm), hnd.2, fun fd m => ?_,
    h.once.erase n, fun m hm => h.old m (List.mem_of_mem_erase hm)⟩
  · show m ∈ s.live.erase n ↔ m ∈ out ∨ m ∈ s.members
    rw [h.once.mem_erase_iff, h.live, List.mem_cons]
    constructor
    · rintro ⟨hne, (rfl | hm) | hm⟩
      · exact absurd rfl hne
      · exact Or.inl hm
      · exact Or.inr hm
    · rintro (hm | hm)
      · exact ⟨fun he => hnd.1 (he ▸ hm), Or.inl (Or.inr hm)⟩
      · exact ⟨fun he => h.apart n List.mem_cons_self (he ▸ hm), Or.inr hm⟩
  · show _ ↔ m ∈ s.live.erase n ∧ (s.node m).data.fd = fd
    rw [h.once.mem_erase_iff]
    by_cases hfd : 0 ≤ (s.node n).data.fd
    · rw [if_pos hfd]
      have hself : nd (s.node n).data.fd.toNat = some n := (h.nodes _ n).2 ⟨hn, (Int.toNat_of_nonneg hfd).symm⟩
      by_cases he : fd = (s.node n).data.fd.toNat
      · rw [he, Function.update_self]
        refine ⟨fun hm => (by cases hm), fun hm => ?_⟩
        have := (h.nodes _ m).2 ⟨hm.1.2, hm.2⟩
        rw [hself] at this
        exact absurd (Option.some.inj this).symm hm.1.1
      · rw [Function.update_of_ne he, h.nodes]
        refine ⟨fun hm => ⟨⟨?_, hm.1⟩, hm.2⟩, fun hm => ⟨hm.1.2, hm.2⟩⟩
        rintro rfl
        exact he (by rw [hm.2]; rfl)
    · rw [if_neg hfd, h.nodes]
      refine ⟨fun hm => ⟨⟨?_, hm.1⟩, hm.2⟩, fun hm => ⟨hm.1.2, hm.2⟩⟩
      rintro rfl
      exact hfd (by rw [hm.2]; exact Int.natCast_nonneg fd)

theorem Holds.drop_fd {fd : Nat} (h : s.Holds (n :: out) nd) (hfd : (s.node n).data.fd = fd) :
    (s.forget n).Holds out (Function.update nd fd none) := by
  have hdrop := h.drop
  rwa [hfd, if_pos (Int.natCast_nonneg fd), Int.toNat_natCast] at hdrop

theorem Holds.leave (h : s.Holds (n :: out) s.nodes) : (s.leave n).Holds out (s.leave n).nodes := by
  have hdrop := h.drop
  unfold Poller.leave
  dsimp only
  split
  · rename_i hfd
    rw [if_pos hfd] at hdrop
    exact hdrop.congr rfl rfl (fun _ => rfl) rfl
  · rename_i hfd
    rw [if_neg hfd] at hdrop
    exact hdrop

theorem Holds.leave_all {l : List NodeId} (h : s.Holds (l ++ out) s.nodes) :
    (l.foldl (fun s n => s.leave n) s).Holds out (l.foldl (fun s n => s.leave n) s).nodes := by
  induction l generalizing s with
  | nil => exact h
  | cons n l ih => exact ih h.leave

/-- A node goes into its place, by its timeout. -/
theorem Holds.insertTimeo (timeout : Int) (h : s.Holds [n] nd) (hf : s.inRbtree n = false) :
    (s.insertTimeo B timeout n).Holds [] nd := by
  have hn := h.apart n (List.mem_singleton_self n)
  have hput : ∀ {q : TimeoQueue}, q.Ok → (∀ m, m ∈ q.members ↔ m = n ∨ m ∈ s.members) →
      { s with toTimeoQueue := q }.Holds [] nd := by
    intro q hok hmembers
    refine ⟨hok, fun m => ?_, by simp, List.nodup_nil, h.nodes, h.once, h.old⟩
    rw [h.live m, List.mem_singleton, ← hmembers m]
    exact ⟨Or.inr, fun hm => hm.resolve_left (by simp)⟩
  unfold Poller.insertTimeo
  split
  · obtain ⟨hok, hmembers, -⟩ := TimeoQueue.insertNode_ok (B := B) h.queue hn hf
    unfold Poller.insertNode
    dsimp only
    split
    · exact (hput hok hmembers).congr rfl rfl (fun _ => rfl) rfl
    · exact hput hok hmembers
  · obtain ⟨hok, hmembers⟩ := TimeoQueue.addNoTimeo_ok h.queue hn hf
    exact hput hok hmembers

theorem Holds.insertNode (h : s.Holds [n] nd) (hf : s.inRbtree n = false) : (s.insertNode B n).Holds [] nd :=
  h.insertTimeo 0 hf

theorem Holds.newNode (data : PollerData) (event : Nat) (res : Bool) (time : Option Timespec) (h : s.Holds [] nd)
    (free : 0 ≤ data.fd → nd data.fd.toNat = none) :
    (s.newNode data event res time).Holds [s.fresh]
      (if 0 ≤ data.fd then Function.update nd data.fd.toNat (some s.fresh) else nd) := by
  have hfresh : s.fresh ∉ s.live := fun hm => Nat.lt_irrefl _ (h.old _ hm)
  have hmem : s.fresh ∉ s.members := fun hm => hfresh ((h.live _).2 (Or.inr hm))
  have hnode : ∀ m ∈ s.live, (s.newNode data event res time).node m = s.node m := fun m hm => by
    have hne : m ≠ s.fresh := fun he => hfresh (he ▸ hm)
    exact Function.update_of_ne hne ..
  have hself : (s.newNode data event res time).node s.fresh = ⟨data, event, false, res, none, 0⟩ :=
    Function.update_self ..
  refine ⟨TimeoQueue.setNode_ok h.queue hmem _ _, fun m => ?_, fun m hm => ?_, List.nodup_singleton _, fun fd m => ?_,
    List.nodup_cons.2 ⟨hfresh, h.once⟩, fun m hm => ?_⟩
  · show m ∈ s.fresh :: s.live ↔ m ∈ [s.fresh] ∨ m ∈ s.members
    rw [List.mem_cons, List.mem_singleton, h.live m]
    exact or_congr_right ⟨fun hm => hm.resolve_left (by simp), Or.inr⟩
  · rw [List.mem_singleton.1 hm]
    exact hmem
  · show _ ↔ m ∈ s.fresh :: s.live ∧ _
    rw [List.mem_cons]
    by_cases hm : m = s.fresh
    · subst hm
      rw [hself]
      dsimp only
      split
      · rename_i hfd
        by_cases he : fd = data.fd.toNat
        · rw [he, Function.update_self]
          exact ⟨fun _ => ⟨Or.inl rfl, (Int.toNat_of_nonneg hfd).symm⟩, fun _ => rfl⟩
        · rw [Function.update_of_ne he, h.nodes]
          refine ⟨fun hm => absurd hm.1 hfresh, fun hm => ?_⟩
          exact absurd (by rw [hm.2]; rfl) he
      · rename_i hfd
        rw [h.nodes]
        refine ⟨fun hm => absurd hm.1 hfresh, fun hm => ?_⟩
        exact absurd (by rw [hm.2]; exact Int.natCast_nonneg fd) hfd
    · have hiff : m ∈ s.live ∧ ((s.newNode data event res time).node m).data.fd = fd ↔ nd fd = some m := by
        rw [h.nodes]
        exact ⟨fun hm => ⟨hm.1, by rw [← hm.2, hnode m hm.1]⟩, fun hm => ⟨hm.1, by rw [hnode m hm.1, hm.2]⟩⟩
      rw [or_iff_right hm, hiff]
      split
      · rename_i hfd
        by_cases he : fd = data.fd.toNat
        · rw [he, Function.update_self, free hfd]
          exact ⟨fun heq => absurd (Option.some.inj heq).symm hm, fun heq => (by cases heq)⟩
        · rw [Function.update_of_ne he]
      · rfl
  · rcases List.mem_cons.1 hm with rfl | hm
    · exact Nat.lt_succ_self _
    · exact Nat.lt_succ_of_lt (h.old m hm)

/-- What `post` touches. -/
theorem post_frame (n : NodeId) (state : PrSt) (s : Poller) : (s.post n state).toTimeoQueue = s.toTimeoQueue ∧
    (s.post n state).live = s.live ∧ (s.post n state).nodes = s.nodes ∧ (s.post n state).fresh = s.fresh ∧
    ∀ m, ((s.post n state).node m).data = (s.node m).data := by
  have hset : ∀ m, ((s.setResult n state 0).node m).data = (s.node m).data := by
    intro m
    rw [setResult]
    dsimp only
    by_cases hm : m = n
    · rw [hm, Function.update_self]
    · rw [Function.update_of_ne hm]
  unfold post
  dsimp only
  split
  · exact ⟨rfl, rfl, rfl, rfl, hset⟩
  · refine ⟨rfl, rfl, rfl, rfl, fun m => ?_⟩
    rw [← hset m]
    dsimp only
    by_cases hm : m = n
    · rw [hm, Function.update_self]
    · rw [Function.update_of_ne hm]

theorem Holds.post (m : NodeId) (state : PrSt) (h : s.Holds out nd) : (s.post m state).Holds out nd := by
  obtain ⟨hq, hl, -, hf, hd⟩ := post_frame m state s
  exact h.congr hq hl hd hf

/-! ## The operations -/

/-- What neither `insertTimeo` nor what it calls touches. -/
theorem insertTimeo_frame (timeout : Int) (n : NodeId) (s : Poller) :
    (s.insertTimeo B timeout n).nodes = s.nodes ∧ (s.insertTimeo B timeout n).live = s.live ∧
      (s.insertTimeo B timeout n).fresh = s.fresh ∧ (s.insertTimeo B timeout n).node = s.node ∧
      (s.insertTimeo B timeout n).epoll = s.epoll ∧ (s.insertTimeo B timeout n).pipe = s.pipe ∧
      (s.insertTimeo B timeout n).calls = s.calls ∧ (s.insertTimeo B timeout n).stopped = s.stopped := by
  unfold insertTimeo insertNode
  dsimp only
  split
  · split <;> exact ⟨rfl, rfl, rfl, rfl, rfl, rfl, rfl, rfl⟩
  · exact ⟨rfl, rfl, rfl, rfl, rfl, rfl, rfl, rfl⟩

theorem check_fd {ans : SysAnswers} {data : PollerData} {r : Nat × Bool} (h : s.check ans data = .ok r) :
    0 ≤ data.fd ∧ data.fd.toNat < s.maxOpenFiles := by
  unfold check at h
  split at h
  · cases h
  · split at h
    · cases h
    · omega

theorem Holds.setNodes {m : Nat → Option NodeId} {fd : Nat} (h : s.Holds out (Function.update m fd (some n)))
    (hm : s.nodes = m) : { s with nodes := Function.update s.nodes fd (some n) }.Holds out
      (Function.update s.nodes fd (some n)) := by
  subst hm
  exact h.congr rfl rfl (fun _ => rfl) rfl

/-- A new node takes its place, under a descriptor that has none. -/
theorem Holds.put (data : PollerData) (event : Nat) (res : Bool) (time : Option Timespec) (timeout : Int)
    (h : s.Holds [] nd) (hfd : 0 ≤ data.fd) (free : nd data.fd.toNat = none) :
    ((s.newNode data event res time).insertTimeo B timeout s.fresh).Holds []
      (Function.update nd data.fd.toNat (some s.fresh)) := by
  have hnew := h.newNode data event res time fun _ => free
  rw [if_pos hfd] at hnew
  exact hnew.insertTimeo timeout (Function.update_self ..)

theorem Holds.add (ans : SysAnswers) (data : PollerData) (timeout : Int) (h : s.Holds [] s.nodes) :
    (s.add B ans data timeout).2.Holds [] (s.add B ans data timeout).2.nodes := by
  unfold Poller.add
  split
  · exact h
  · rename_i event needRes hcheck
    split
    · exact h
    · rename_i hfree
      split
      · exact h
      · have hfd := (check_fd hcheck).1
        have hset : (s.setFd data.fd.toNat event s.fresh).Holds [] s.nodes := h.congr rfl rfl (fun _ => rfl) rfl
        have hput := hset.put (B := B) data event needRes
          (if 0 ≤ timeout then some (ans.clock.after timeout.toNat) else none) timeout hfd
          (Option.not_isSome_iff_eq_none.1 hfree)
        exact hput.setNodes (insertTimeo_frame timeout s.fresh _).1

theorem Holds.del (fd : Int) (h : s.Holds [] s.nodes) : (s.del B fd).2.Holds [] (s.del B fd).2.nodes := by
  unfold Poller.del
  split
  · exact h
  · split
    · exact h
    · split
      · exact h
      · rename_i n hn
        have hlive := ((h.nodes _ n).1 hn).1
        have hout := (h.unlink (B := B) hlive).1
        rw [(post_frame n .deleted _).2.2.1]
        exact hout.leave.post n .deleted

theorem Holds.mod (ans : SysAnswers) (data : PollerData) (timeout : Int) (h : s.Holds [] s.nodes) :
    (s.mod B ans data timeout).2.Holds [] (s.mod B ans data timeout).2.nodes := by
  unfold Poller.mod
  split
  · exact h
  · rename_i event needRes hcheck
    split
    · exact h
    · rename_i old hold
      split
      · exact h
      · have hfd := (check_fd hcheck).1
        obtain ⟨hlive, hdata⟩ := (h.nodes _ old).1 hold
        have hset : (s.setFd data.fd.toNat event s.fresh).Holds [] s.nodes := h.congr rfl rfl (fun _ => rfl) rfl
        -- the old node goes, and with it the descriptor is free
        have hout := (hset.unlink (B := B) hlive).1.drop_fd hdata
        have hput := (hout.post old .modified).put (B := B) data event needRes
          (if 0 ≤ timeout then some (ans.clock.after timeout.toNat) else none) timeout hfd (Function.update_self ..)
        rw [Function.update_idem, (post_frame old .modified _).2.2.2.1] at hput
        exact hput.setNodes ((insertTimeo_frame timeout s.fresh _).1.trans (post_frame old .modified _).2.2.1)

/-- The time of a node that is out of its place. -/
theorem Holds.setTime (t : Timespec) (h : s.Holds [n] nd) :
    { s with timeout := Function.update s.timeout n t }.Holds [n] nd := by
  have hok := TimeoQueue.setNode_ok h.queue (h.apart n (List.mem_singleton_self n)) t (s.inRbtree n)
  rw [Function.update_eq_self] at hok
  exact ⟨hok, h.live, h.apart, h.nodup, h.nodes, h.once, h.old⟩

theorem Holds.setTimeout (ans : SysAnswers) (fd timeout : Int) (h : s.Holds [] s.nodes) :
    (s.setTimeout B ans fd timeout).2.Holds [] (s.setTimeout B ans fd timeout).2.nodes := by
  unfold Poller.setTimeout
  split
  · exact h
  · split
    · exact h
    · split
      · exact h
      · rename_i n hn
        obtain ⟨hout, hflag⟩ := h.unlink (B := B) ((h.nodes _ n).1 hn).1
        dsimp only
        rw [(insertTimeo_frame timeout n _).1]
        exact (hout.setTime _).insertTimeo timeout hflag

theorem Holds.addTimer (ans : SysAnswers) (value : Timespec) (h : s.Holds [] s.nodes) :
    (s.addTimer B ans value).2.Holds [] (s.addTimer B ans value).2.nodes := by
  unfold Poller.addTimer
  split
  · exact h
  · dsimp only
    have hnew := h.newNode ⟨.timer, -1, false⟩ 0 false (some (ans.clock.plus value.sec value.nsec value.normal)) (by simp)
    rw [if_neg (by decide)] at hnew
    have hput := hnew.insertNode (B := B) (Function.update_self ..)
    have hnodes := (insertTimeo_frame (B := B) 0 s.fresh (s.newNode ⟨.timer, -1, false⟩ 0 false
      (some (ans.clock.plus value.sec value.nsec value.normal)))).1
    exact hnodes.symm ▸ hput

theorem Holds.removeNode (h : s.Holds [] s.nodes) (hn : n ∈ s.live ∨ (s.node n).removed = true) :
    (s.removeNode B n).2.Holds [] (s.removeNode B n).2.nodes := by
  unfold Poller.removeNode
  split
  · exact h
  · rename_i hr
    exact (h.unlink (hn.resolve_right hr)).1.leave

theorem Holds.handleTimeout (time : Timespec) (h : s.Holds [] s.nodes) :
    (s.handleTimeout B time).2.Holds [] (s.handleTimeout B time).2.nodes := by
  obtain ⟨hok, hperm, -⟩ := TimeoQueue.expire_ok (B := B) time h.queue
  have hnd := hperm.nodup_iff.2 h.queue.nodup
  rw [List.nodup_append] at hnd
  unfold Poller.handleTimeout
  dsimp only
  refine Holds.leave_all (s := { s with toTimeoQueue := (s.toTimeoQueue.expire B time).2 })
    ⟨hok, fun m => ?_, fun m hm => ?_, ?_, h.nodes, h.once, h.old⟩
  · rw [List.append_nil, ← List.mem_append, hperm.mem_iff, h.live m]
    exact ⟨fun hm => hm.resolve_left (by simp), Or.inr⟩
  · rw [List.append_nil] at hm
    exact fun hm' => hnd.2.2 m hm m hm' rfl
  · rw [List.append_nil]
    exact hnd.1

/-- **Every operation keeps the registry.** -/
theorem exec_holds {op : PollerOp} (h : s.Holds [] s.nodes) (hc : s.Callable op) :
    (s.exec B op).2.Holds [] (s.exec B op).2.nodes := by
  cases op with
  | start => exact h.congr rfl rfl (fun _ => rfl) rfl
  | add ans data timeout => exact h.add ans data timeout
  | mod ans data timeout => exact h.mod ans data timeout
  | del fd => exact h.del fd
  | setTimeout ans fd timeout => exact h.setTimeout ans fd timeout
  | addTimer ans value => exact h.addTimer ans value
  | removeNode n => exact h.removeNode (hc.imp_left And.left)
  | handleTimeout time => exact h.handleTimeout time

/-- An operation that fails has done nothing. -/
theorem exec_error {op : PollerOp} {e : PollerErrno} (h : (s.exec B op).1 = .error e) : (s.exec B op).2 = s := by
  cases op with
  | start => cases h
  | add ans data timeout =>
    simp only [exec, add] at h ⊢
    split at h
    · rfl
    · split at h
      · rw [if_pos (by assumption)]
      · split at h
        · rw [if_neg (by assumption), if_pos (by assumption)]
        · cases h
  | mod ans data timeout =>
    simp only [exec, mod] at h ⊢
    split at h
    · rfl
    · split at h
      · rfl
      · split at h
        · rw [if_pos (by assumption)]
        · cases h
  | del fd =>
    simp only [exec, del] at h ⊢
    split at h
    · rw [if_pos (by assumption)]
    · split at h
      · rw [if_neg (by assumption), if_pos (by assumption)]
      · split at h
        · rw [if_neg (by assumption), if_neg (by assumption)]
        · cases h
  | setTimeout ans fd timeout =>
    simp only [exec, setTimeout] at h ⊢
    split at h
    · rw [if_pos (by assumption)]
    · split at h
      · rw [if_neg (by assumption), if_pos (by assumption)]
      · split at h
        · rw [if_neg (by assumption), if_neg (by assumption)]
        · cases h
  | addTimer ans value =>
    simp only [exec, addTimer] at h ⊢
    split at h
    · rw [if_pos (by assumption)]
    · cases h
  | removeNode n => cases h
  | handleTimeout time => cases h

theorem create_holds (maxOpenFiles pipeRd pipeWr : Nat) :
    (create maxOpenFiles pipeRd pipeWr).Holds [] (create maxOpenFiles pipeRd pipeWr).nodes := by
  refine ⟨⟨.nil, .nil, rfl, rfl, List.nodup_nil, by simp [create, TimeoQueue.members, TimeoQueue.timed, inorder]⟩,
    fun n => ?_, by simp, List.nodup_nil, fun fd n => ?_, List.nodup_nil, by simp [create]⟩
  · simp [create, TimeoQueue.members, TimeoQueue.timed, inorder]
  · simp [create]

/-! ## Every sequence of operations -/

/-- **The registry and its timers are in order.** -/
structure Registry (s : Poller) : Prop where
  list : s.timeoList.Pairwise fun a b => s.due a ≤ s.due b
  tree : (inorder s.timeoTree).Pairwise fun a b => s.due a ≤ s.due b
  first : s.treeFirst = (inorder s.timeoTree).head?
  last : s.treeLast = (inorder s.timeoTree).getLast?
  placed : ∀ n, n ∈ s.live ↔ n ∈ s.timeoList ++ inorder s.timeoTree ++ s.noTimeoList
  once : (s.timeoList ++ inorder s.timeoTree ++ s.noTimeoList).Nodup
  flag : ∀ n ∈ s.live, s.inRbtree n = true ↔ n ∈ inorder s.timeoTree
  nodes : ∀ (fd : Nat) n, s.nodes fd = some n ↔ n ∈ s.live ∧ (s.node n).data.fd = fd

theorem Holds.registry (h : s.Holds [] s.nodes) : s.Registry where
  list := h.queue.list
  tree := h.queue.tree
  first := h.queue.first
  last := h.queue.last
  placed := fun n => (h.live n).trans ⟨fun hm => hm.resolve_left (by simp), Or.inr⟩
  once := h.queue.nodup
  flag := fun n hn => h.queue.flag n (((h.live n).1 hn).resolve_left (by simp))
  nodes := h.nodes

open Lts

/-- **In every state that operations lead to the registry is in order, and one that fails leaves it as it is.** -/
theorem poller_registry (B : Balance NodeId) {maxOpenFiles pipeRd pipeWr : Nat}
    (run : Reaches (fun s op s' => s' = (s.exec B op).2) Callable (create maxOpenFiles pipeRd pipeWr) s) :
    s.Registry ∧ ∀ op e, (s.exec B op).1 = .error e → (s.exec B op).2 = s := by
  have hs := run.keeps (P := fun s => s.Holds [] s.nodes) (by
    rintro s op s' h hc rfl
    exact exec_holds h hc) (create_holds maxOpenFiles pipeRd pipeWr)
  exact ⟨hs.registry, fun _ _ => exec_error⟩

/-- Two registrations, the second to time out before the first. -/
theorem poller_registry_two :
    let B := unbalanced NodeId
    let ans : SysAnswers := ⟨⟨5, 0, by decide⟩, true, true, true⟩
    let s := (((create 16 3 4).exec B .start).2.exec B (.add ans ⟨.read, 5, true⟩ 2000)).2
    let s' := (s.exec B (.add ans ⟨.write, 6, false⟩ 1000)).2
    s'.Registry ∧ ∀ op e, (s'.exec B op).1 = .error e → (s'.exec B op).2 = s' :=
  poller_registry (unbalanced NodeId) (.next (.next (.next .start (a := .start) trivial rfl)
    (a := .add ⟨⟨5, 0, by decide⟩, true, true, true⟩ ⟨.read, 5, true⟩ 2000) trivial rfl)
    (a := .add ⟨⟨5, 0, by decide⟩, true, true, true⟩ ⟨.write, 6, false⟩ 1000) trivial rfl)

end Poller

end Tinywf
