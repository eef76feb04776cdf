import Tinywf.PollerAccounts
/-!
# PollerExpiry — the nodes that time out

The list is sorted, so that what stands in front of the first node that is not due is all that is due of it, and the same
holds of the tree (`expire_filter`).  What `__poller_handle_timeout` takes off is then what a test of every node against
the clock would give (`timeout_expiry`).
-/
namespace Tinywf

open InorderTree

variable {B : Balance NodeId}

/-! ## Sorted lists -/

/-- In a list where what passes a test stands in front, the test cuts the list in two. -/
theorem takeWhile_filter {p : NodeId → Bool} {l : List NodeId} (h : l.Pairwise fun a b => p b = true → p a = true) :
    l.takeWhile p = l.filter p ∧ l.dropWhile p = l.filter (fun a => !p a) := by
  induction l with
  | nil => exact ⟨rfl, rfl⟩
  | cons a l ih =>
    obtain ⟨hhead, htail⟩ := List.pairwise_cons.1 h
    cases ha : p a with
    | true =>
      obtain ⟨htake, hdrop⟩ := ih htail
      rw [List.takeWhile_cons_of_pos ha, List.dropWhile_cons_of_pos ha, List.filter_cons_of_pos ha,
        List.filter_cons_of_neg (by rw [ha]; simp), htake, hdrop]
      exact ⟨rfl, rfl⟩
    | false =>
      have hrest : ∀ b ∈ l, ¬ p b = true := fun b hb hpb => by
        have := hhead b hb hpb
        rw [ha] at this
        cases this
      have hneg : ¬ p a = true := by rw [ha]; simp
      rw [List.takeWhile_cons_of_neg hneg, List.dropWhile_cons_of_neg hneg, List.filter_cons_of_neg hneg,
        List.filter_eq_nil_iff.2 hrest, List.filter_cons_of_pos (by rw [ha]; rfl)]
      refine ⟨rfl, congrArg (a :: ·) (List.filter_eq_self.2 fun b hb => ?_).symm⟩
      rw [Bool.not_eq_true', Bool.eq_false_iff]
      exact hrest b hb

namespace TimeoQueue

variable {q : TimeoQueue}

/-- What is due at `time`: up to it in the list, before it in the tree. -/
def dueNodes (time : Timespec) (q : TimeoQueue) : List NodeId :=
  q.timeoList.filter (fun n => decide (q.due n ≤ time.ns)) ++
    (inorder q.timeoTree).filter (fun n => decide (q.due n < time.ns))

theorem expireTree_filter {k : Nat} (time : Timespec) (h : q.Ok) (hk : (inorder q.timeoTree).length ≤ k) :
    (q.expireTree B time k).1 = (inorder q.timeoTree).filter (fun n => decide (q.due n < time.ns)) ∧
      inorder (q.expireTree B time k).2.timeoTree =
        (inorder q.timeoTree).filter (fun n => decide (time.ns ≤ q.due n)) := by
  obtain ⟨-, hin, -, -, -, hbefore, hrest⟩ := expireTree_ok (B := B) time k h hk
  generalize q.expireTree B time k = r at hin hbefore hrest ⊢
  have hlate : ∀ n ∈ inorder r.2.timeoTree, ¬ decide (q.due n < time.ns) = true := fun n hn => by
    rw [decide_eq_true_iff]
    exact Nat.not_lt.2 (hrest n hn)
  have hearly : ∀ n ∈ r.1, ¬ decide (time.ns ≤ q.due n) = true := fun n hn => by
    rw [decide_eq_true_iff]
    exact Nat.not_le.2 (hbefore n hn)
  rw [hin, List.filter_append, List.filter_append]
  constructor
  · rw [List.filter_eq_self.2 fun n hn => decide_eq_true (hbefore n hn), List.filter_eq_nil_iff.2 hlate, List.append_nil]
  · rw [List.filter_eq_nil_iff.2 hearly, List.filter_eq_self.2 fun n hn => decide_eq_true (hrest n hn), List.nil_append]

/-- **`__poller_handle_timeout` takes what is due**, and leaves the rest as it stands. -/
theorem expire_filter (time : Timespec) (h : q.Ok) :
    (q.expire B time).1 = q.dueNodes time ∧
      (q.expire B time).2.timeoList = q.timeoList.filter (fun n => decide (time.ns < q.due n)) ∧
      inorder (q.expire B time).2.timeoTree = (inorder q.timeoTree).filter (fun n => decide (time.ns ≤ q.due n)) ∧
      (q.expire B time).2.noTimeoList = q.noTimeoList := by
  unfold expire dueNodes
  dsimp only
  have htest : (fun n => decide (timeoutCmp (q.timeout n) time ≤ 0)) = fun n => decide (q.due n ≤ time.ns) := by
    funext n
    exact decide_eq_decide.2 timeoutCmp_le
  have hnot : (fun n => !decide (q.due n ≤ time.ns)) = fun n => decide (time.ns < q.due n) := by
    funext n
    rw [← decide_not]
    exact decide_eq_decide.2 Nat.not_le
  rw [htest]
  have hsorted : q.timeoList.Pairwise fun a b =>
      decide (q.due b ≤ time.ns) = true → decide (q.due a ≤ time.ns) = true := by
    refine h.list.imp fun {a b} hab hb => ?_
    rw [decide_eq_true_iff] at hb ⊢
    exact Nat.le_trans hab hb
  obtain ⟨htake, hdrop⟩ := takeWhile_filter hsorted
  rw [hnot] at hdrop
  rw [htake, hdrop]
  have hsub : (q.timeoList.filter fun n => decide (time.ns < q.due n)).Sublist q.timeoList := List.filter_sublist
  have hmembers : (q.timeoList.filter (fun n => decide (time.ns < q.due n)) ++ inorder q.timeoTree ++
      q.noTimeoList).Sublist q.members := (hsub.append_right _).append_right _
  have hok : { q with timeoList := q.timeoList.filter fun n => decide (time.ns < q.due n) }.Ok :=
    ⟨h.list.sublist hsub, h.tree, h.first, h.last, h.nodup.sublist hmembers, fun m hm => h.flag m (hmembers.subset hm)⟩
  obtain ⟨-, -, hlist, hno, -⟩ := expireTree_ok (B := B) time _ hok (Nat.le_refl _)
  obtain ⟨htree, hrest⟩ := expireTree_filter (B := B) time hok (Nat.le_refl _)
  exact ⟨congrArg (_ ++ ·) htree, hlist, hrest, hno⟩

end TimeoQueue

namespace Poller

/-! ## The whole function -/

/-- A node that timed out is called back. -/
def timeoutNode (n : NodeId) (s : Poller) : Poller := (s.setResult n .error ETIMEDOUT).callback n

/-- `__poller_handle_timeout`, when nothing comes between its callbacks. -/
def timeouts (B : Balance NodeId) (time : Timespec) (s : Poller) : Poller :=
  (s.handleTimeout B time).1.foldl (fun s n => s.timeoutNode n) (s.handleTimeout B time).2

variable {s : Poller}

theorem timeoutNode_all (l : List NodeId) :
    (l.foldl (fun s n => timeoutNode n s) s).calls = s.calls ++ l.map (fun n => ⟨n, some .error, ETIMEDOUT⟩) ∧
      (l.foldl (fun s n => timeoutNode n s) s).toTimeoQueue = s.toTimeoQueue ∧
      (l.foldl (fun s n => timeoutNode n s) s).nodes = s.nodes ∧
      (l.foldl (fun s n => timeoutNode n s) s).epoll = s.epoll := by
  induction l generalizing s with
  | nil => exact ⟨(List.append_nil _).symm, rfl, rfl, rfl⟩
  | cons n l ih =>
    obtain ⟨hcalls, hqueue, hnodes, hepoll⟩ := ih (s := s.timeoutNode n)
    refine ⟨?_, hqueue, hnodes, hepoll⟩
    have hself : (s.timeoutNode n).calls = s.calls ++ [⟨n, some .error, ETIMEDOUT⟩] := by
      unfold timeoutNode callback setResult
      dsimp only
      rw [Function.update_self]
    rw [List.foldl_cons, hcalls, hself, List.append_assoc]
    rfl

theorem leave_all (l : List NodeId) :
    (l.foldl (fun s n => leave n s) s).toTimeoQueue = s.toTimeoQueue ∧
      (l.foldl (fun s n => leave n s) s).calls = s.calls ∧
      ∀ fd : Nat, (l.foldl (fun s n => leave n s) s).nodes fd =
          (if ∃ n ∈ l, (s.node n).data.fd = fd then none else s.nodes fd) ∧
        (l.foldl (fun s n => leave n s) s).epoll fd =
          if ∃ n ∈ l, (s.node n).data.fd = fd then none else s.epoll fd := by
  induction l generalizing s with
  | nil => exact ⟨rfl, rfl, fun fd => by simp⟩
  | cons n l ih =>
    obtain ⟨hqueue, hcalls, hfd⟩ := ih (s := s.leave n)
    obtain ⟨-, hnode, -, hself, -⟩ := leave_live n s
    refine ⟨hqueue.trans hself, hcalls.trans ?_, fun fd => ?_⟩
    · unfold leave
      dsimp only
      split <;> rfl
    · have hone : (s.leave n).nodes fd = (if (s.node n).data.fd = fd then none else s.nodes fd) ∧
          (s.leave n).epoll fd = if (s.node n).data.fd = fd then none else s.epoll fd := by
        unfold leave
        dsimp only
        split
        · rename_i hpos
          by_cases he : (s.node n).data.fd = fd
          · have hto : (s.node n).data.fd.toNat = fd := by omega
            rw [if_pos he, if_pos he, hto]
            exact ⟨Function.update_self .., Function.update_self ..⟩
          · have hto : fd ≠ (s.node n).data.fd.toNat := by omega
            rw [if_neg he, if_neg he]
            exact ⟨Function.update_of_ne hto .., Function.update_of_ne hto ..⟩
        · rename_i hneg
          have he : ¬ (s.node n).data.fd = fd := by omega
          rw [if_neg he, if_neg he]
          exact ⟨rfl, rfl⟩
      have hmem : (∃ m ∈ n :: l, (s.node m).data.fd = fd) ↔
          (s.node n).data.fd = fd ∨ ∃ m ∈ l, (s.node m).data.fd = fd := by simp
      rw [List.foldl_cons, (hfd fd).1, (hfd fd).2, hone.1, hone.2, hnode]
      by_cases hl : ∃ m ∈ l, (s.node m).data.fd = fd
      · rw [if_pos hl, if_pos hl, if_pos (hmem.2 (Or.inr hl)), if_pos (hmem.2 (Or.inr hl))]
        exact ⟨rfl, rfl⟩
      · rw [if_neg hl, if_neg hl]
        by_cases he : (s.node n).data.fd = fd
        · rw [if_pos he, if_pos he, if_pos (hmem.2 (Or.inl he)), if_pos (hmem.2 (Or.inl he))]
          exact ⟨rfl, rfl⟩
        · have hnone : ¬ ∃ m ∈ n :: l, (s.node m).data.fd = fd := fun h => (hmem.1 h).elim he hl
          rw [if_neg he, if_neg he, if_neg hnone, if_neg hnone]
          exact ⟨rfl, rfl⟩

theorem Registry.queue (h : s.Registry) : s.toTimeoQueue.Ok :=
  ⟨h.list, h.tree, h.first, h.last, h.once, fun n hn => h.flag n ((h.placed n).2 hn)⟩

/-- **The nodes that are due** are called back, in order, their descriptors given up; the others stay as they are. -/
structure Expired (time : Timespec) (s s' : Poller) : Prop where
  calls : s'.calls = s.calls ++ (s.dueNodes time).map (fun n => ⟨n, some .error, ETIMEDOUT⟩)
  once : (s.dueNodes time).Nodup
  nodes : ∀ fd : Nat, s'.nodes fd = if ∃ n ∈ s.dueNodes time, (s.node n).data.fd = fd then none else s.nodes fd
  epoll : ∀ fd : Nat, s'.epoll fd = if ∃ n ∈ s.dueNodes time, (s.node n).data.fd = fd then none else s.epoll fd
  list : s'.timeoList = s.timeoList.filter (fun n => decide (time.ns < s.due n))
  tree : inorder s'.timeoTree = (inorder s.timeoTree).filter (fun n => decide (time.ns ≤ s.due n))
  noTimeo : s'.noTimeoList = s.noTimeoList
  timeout : s'.timeout = s.timeout
  queue : s'.toTimeoQueue.Ok
  rest : ∀ n ∈ s'.timed, time.ns ≤ s'.due n

/-- **`__poller_handle_timeout` calls back the nodes that are due, and no others.** -/
theorem timeout_expiry (B : Balance NodeId) (time : Timespec) (reg : s.Registry) : Expired time s (s.timeouts B time) := by
  obtain ⟨hok, hperm, -, htime, -, hrest⟩ := TimeoQueue.expire_ok (B := B) time reg.queue
  obtain ⟨hdue, hlist, htree, hno⟩ := TimeoQueue.expire_filter (B := B) time reg.queue
  obtain ⟨hcalls, hqueue, hnodes, hepoll⟩ :=
    timeoutNode_all (s := (s.handleTimeout B time).2) (s.handleTimeout B time).1
  obtain ⟨hqueue', hcalls', hfd⟩ :=
    leave_all (s := { s with toTimeoQueue := (s.toTimeoQueue.expire B time).2 }) (s.toTimeoQueue.expire B time).1
  have hq : (s.timeouts B time).toTimeoQueue = (s.toTimeoQueue.expire B time).2 := hqueue.trans hqueue'
  refine {
    calls := ?_
    once := ?_
    nodes := fun fd => ?_
    epoll := fun fd => ?_
    list := hq ▸ hlist
    tree := hq ▸ htree
    noTimeo := hq ▸ hno
    timeout := hq ▸ htime
    queue := hq ▸ hok
    rest := fun n hn => ?_ }
  · exact hcalls.trans (congr (congrArg _ hcalls') (congrArg _ hdue))
  · rw [← hdue]
    exact (List.nodup_append.1 (hperm.nodup_iff.2 reg.queue.nodup)).1
  · rw [← hdue]
    exact (congrFun hnodes fd).trans (hfd fd).1
  · rw [← hdue]
    exact (congrFun hepoll fd).trans (hfd fd).2
  · rw [hq] at hn ⊢
    rw [TimeoQueue.due_congr htime]
    exact hrest n hn

/-- Four nodes at five seconds, due at seven, nine, six and eight seconds, and a call at eight. -/
theorem timeout_expiry_four :
    let B := unbalanced NodeId
    let ans : SysAnswers := ⟨⟨5, 0, by decide⟩, true, true, true⟩
    let s := (((((create 16 3 4).exec B .start).2.exec B (.add ans ⟨.read, 5, true⟩ 2000)).2.exec B
      (.add ans ⟨.read, 6, true⟩ 4000)).2.exec B (.add ans ⟨.write, 7, false⟩ 1000)).2
    let s' := (s.exec B (.add ans ⟨.write, 8, false⟩ 3000)).2
    Expired ⟨8, 0, by decide⟩ s' (s'.timeouts B ⟨8, 0, by decide⟩) := by
  intro B ans s s'
  refine timeout_expiry B _ (Holds.registry ?_)
  refine exec_holds (exec_holds (exec_holds (exec_holds (exec_holds (create_holds 16 3 4) ?_) ?_) ?_) ?_) ?_ <;> trivial

end Poller

/-! ## On the poller's thread -/

open Lts

/-- **The poller's thread does it in as many steps as nodes are due**, when no other thread comes between them. -/
theorem PollerStep.timeouts {cap : Nat} {s₀ s : PollerSys} (thread : s.thread = .timeout)
    (run : Reaches (PollerStep B cap) (fun _ _ => True) s₀ s) :
    Reaches (PollerStep B cap) (fun _ _ => True) s₀ { s with poller := s.poller.timeouts B s.time, thread := .expired [] } := by
  have hall : ∀ (l : List NodeId) (p : Poller),
      Reaches (PollerStep B cap) (fun _ _ => True) s₀ { s with poller := p, thread := .expired l } →
        Reaches (PollerStep B cap) (fun _ _ => True) s₀ { s with
          poller := l.foldl (fun p n => p.timeoutNode n) p
          thread := .expired [] } := by
    intro l
    induction l with
    | nil => exact fun p h => h
    | cons n l ih => exact fun p h => ih _ (.next h trivial (PollerStep.expire n l rfl))
  exact hall _ _ (.next run trivial (PollerStep.timeout thread))

end Tinywf
