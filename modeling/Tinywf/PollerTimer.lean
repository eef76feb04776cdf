import Tinywf.PollerEnds
/-!
# PollerTimer — no timer is missed

Inserting a node sets the timer only where the node is due before all others; otherwise another one is due no later, and
the timer is set early enough for that (`Timely.insertTimeo`).  Nodes that go leave it as it is.  So from the time the
thread has set the timer until it fires, it is armed no later than for the first node due (`timer_armed`).
-/
namespace Tinywf

open InorderTree

namespace Poller

/-- No node is due at zero; and, if `w` holds, a timer that has not fired is armed early enough for every node. -/
structure Timely (w : Prop) (p : Poller) : Prop where
  positive : ∀ n ∈ p.timed, 0 < p.due n
  armed : w → p.timerfd ≠ .fired → ∀ n ∈ p.timed, ∃ t, p.timerfd = .armed t ∧ t.ns ≤ p.due n

variable {B : Balance NodeId} {w : Prop} {p p' : Poller} {n : NodeId} {nd : Nat → Option NodeId}

/-- Nodes go, and the others stay as they are. -/
theorem Timely.shrink (h : p.Timely w) (timed : ∀ n ∈ p'.timed, n ∈ p.timed) (due : ∀ n ∈ p'.timed, p'.due n = p.due n)
    (timerfd : p'.timerfd = p.timerfd) : p'.Timely w := by
  refine ⟨fun n hn => ?_, fun hw hf n hn => ?_⟩
  · rw [due n hn]
    exact h.positive n (timed n hn)
  · rw [timerfd] at hf ⊢
    rw [due n hn]
    exact h.armed hw hf n (timed n hn)

theorem Timely.congr (h : p.Timely w) (queue : p'.toTimeoQueue = p.toTimeoQueue) (timerfd : p'.timerfd = p.timerfd) :
    p'.Timely w := by
  refine h.shrink (fun n hn => ?_) (fun n _ => ?_) timerfd
  · rw [queue] at hn
    exact hn
  · rw [queue]

theorem setTimerfd_pos {t : Timespec} (h : 0 < t.ns) (p : Poller) : (p.setTimerfd t).timerfd = .armed t := by
  rw [setTimerfd]
  dsimp only
  rw [if_neg]
  rintro ⟨h1, h2⟩
  rw [Timespec.ns, h1, h2] at h
  exact Nat.lt_irrefl 0 h

theorem Timely.insertNode (h : p.Timely w) (reg : p.Holds [n] nd) (flag : p.inRbtree n = false) (pos : 0 < p.due n) :
    (p.insertNode B n).Timely w := by
  obtain ⟨-, -, htimed, htime, harm, hleft⟩ :=
    TimeoQueue.insertNode_ok (B := B) reg.queue (reg.apart n (List.mem_singleton_self n)) flag
  have hdue : ∀ m, (p.toTimeoQueue.insertNode B n).1.due m = p.due m := TimeoQueue.due_congr htime
  have hpos : ∀ m ∈ (p.toTimeoQueue.insertNode B n).1.timed, 0 < (p.toTimeoQueue.insertNode B n).1.due m := by
    intro m hm
    rw [hdue]
    rcases (htimed m).1 hm with rfl | hm
    · exact pos
    · exact h.positive m hm
  unfold Poller.insertNode
  dsimp only
  split
  · rename_i hset
    refine ⟨hpos, fun _ _ m hm => ⟨_, setTimerfd_pos ?_ _, ?_⟩⟩
    · rw [htime]
      exact pos
    · show (p.toTimeoQueue.insertNode B n).1.due n ≤ (p.toTimeoQueue.insertNode B n).1.due m
      rw [hdue, hdue]
      rcases (htimed m).1 hm with rfl | hm
      · exact Nat.le_refl _
      · exact harm hset m hm
  · rename_i hset
    obtain ⟨e, he, hle⟩ := hleft (by simpa using hset)
    refine ⟨hpos, fun hw hf m hm => ?_⟩
    show ∃ t, p.timerfd = .armed t ∧ t.ns ≤ (p.toTimeoQueue.insertNode B n).1.due m
    rw [hdue]
    rcases (htimed m).1 hm with rfl | hm
    · obtain ⟨t, ht, hte⟩ := h.armed hw hf e he
      exact ⟨t, ht, Nat.le_trans hte hle⟩
    · exact h.armed hw hf m hm

theorem Timely.insertTimeo (timeout : Int) (h : p.Timely w) (reg : p.Holds [n] nd) (flag : p.inRbtree n = false)
    (pos : 0 ≤ timeout → 0 < p.due n) : (p.insertTimeo B timeout n).Timely w := by
  unfold Poller.insertTimeo
  split
  · rename_i ht
    exact h.insertNode reg flag (pos ht)
  · exact h.shrink (fun _ hm => hm) (fun _ _ => rfl) rfl

/-! ## The operations -/

theorem Timely.unlink (h : p.Timely w) (reg : p.Holds [] nd) (hn : n ∈ p.live) : (p.unlink B n).Timely w := by
  have hm : n ∈ p.members := ((reg.live n).1 hn).resolve_left (by simp)
  obtain ⟨-, -, htimed, htime, -⟩ := TimeoQueue.unlink_ok (B := B) reg.queue hm
  exact h.shrink htimed (fun m _ => TimeoQueue.due_congr htime m) rfl

/-- The time of a node that is out of its place. -/
theorem Timely.setTime (t : Timespec) (h : p.Timely w) (reg : p.Holds [n] nd) :
    { p with timeout := Function.update p.timeout n t }.Timely w := by
  refine h.shrink (fun _ hm => hm) (fun m hm => ?_) rfl
  have hne : m ≠ n := by
    rintro rfl
    exact reg.apart m (List.mem_singleton_self m) (List.mem_append_left _ hm)
  exact congrArg Timespec.ns (Function.update_of_ne hne ..)

theorem Timely.newNode (data : PollerData) (event : Nat) (res : Bool) (time : Option Timespec) (h : p.Timely w)
    (reg : p.Holds [] nd) : (p.newNode data event res time).Timely w := by
  refine h.shrink (fun _ hm => hm) (fun m hm => ?_) rfl
  have hlt := reg.old m ((reg.live m).2 (Or.inr (List.mem_append_left _ hm)))
  exact congrArg Timespec.ns (Function.update_of_ne (Nat.ne_of_lt hlt) ..)

theorem newNode_due (data : PollerData) (event : Nat) (res : Bool) (t : Timespec) (p : Poller) :
    (p.newNode data event res (some t)).due p.fresh = t.ns := congrArg Timespec.ns (Function.update_self ..)

theorem leave_timerfd (n : NodeId) (p : Poller) : (p.leave n).timerfd = p.timerfd := by
  unfold leave
  dsimp only
  split <;> rfl

theorem Timely.leave (n : NodeId) (h : p.Timely w) : (p.leave n).Timely w :=
  h.congr (leave_live n p).2.2.2.1 (leave_timerfd n p)

theorem Timely.post (n : NodeId) (state : PrSt) (h : p.Timely w) : (p.post n state).Timely w := by
  refine h.congr (post_frame n state p).1 ?_
  unfold Poller.post
  dsimp only
  split <;> rfl

/-- A new node, due as its timeout says, takes its place. -/
theorem Timely.put (data : PollerData) (event : Nat) (res : Bool) (timeout : Int) (clock : Timespec) (h : p.Timely w)
    (reg : p.Holds [] nd) (free : 0 ≤ data.fd → nd data.fd.toNat = none) (pos : 0 < clock.ns) :
    ((p.newNode data event res (if 0 ≤ timeout then some (clock.after timeout.toNat) else none)).insertTimeo B timeout
      p.fresh).Timely w := by
  refine (h.newNode data event res _ reg).insertTimeo timeout (reg.newNode data event res _ free)
    (Function.update_self ..) fun ht => ?_
  rw [if_pos ht, newNode_due, Timespec.after, Timespec.ns_plus]
  omega

end Poller

/-- The clock an operation reads is past zero. -/
def PollerOp.Ticks : PollerOp → Prop
  | .add ans _ _ => 0 < ans.clock.ns
  | .mod ans _ _ => 0 < ans.clock.ns
  | .setTimeout ans _ _ => 0 < ans.clock.ns
  | .addTimer ans _ => 0 < ans.clock.ns
  | _ => True

namespace Poller

variable {B : Balance NodeId} {w : Prop} {p : Poller}

theorem exec_timely {op : PollerOp} (free : op.Public) (ticks : op.Ticks) (reg : p.Holds [] p.nodes) (h : p.Timely w) :
    (p.exec B op).2.Timely w := by
  cases op with
  | start => cases free
  | removeNode n => cases free
  | handleTimeout time => cases free
  | add ans data timeout =>
    simp only [exec, Poller.add]
    split
    · exact h
    split
    · exact h
    · rename_i event needRes _ hfree
      split
      · exact h
      · have hset : (p.setFd data.fd.toNat event p.fresh).Timely w := h.congr rfl rfl
        have hreg : (p.setFd data.fd.toNat event p.fresh).Holds [] p.nodes := reg.congr rfl rfl (fun _ => rfl) rfl
        exact (hset.put data event needRes timeout ans.clock hreg
          (fun _ => Option.not_isSome_iff_eq_none.1 hfree) ticks).congr rfl rfl
  | mod ans data timeout =>
    simp only [exec, Poller.mod]
    split
    · exact h
    · rename_i event needRes _
      split
      · exact h
      · rename_i old hold
        split
        · exact h
        · obtain ⟨hlive, hdata⟩ := (reg.nodes _ old).1 hold
          have hset : (p.setFd data.fd.toNat event p.fresh).Timely w := h.congr rfl rfl
          have hreg : (p.setFd data.fd.toNat event p.fresh).Holds [] p.nodes := reg.congr rfl rfl (fun _ => rfl) rfl
          have hout := ((hset.unlink (B := B) hreg hlive).congr rfl rfl :
            (((p.setFd data.fd.toNat event p.fresh).unlink B old).forget old).Timely w)
          have hdrop := ((hreg.unlink (B := B) hlive).1.drop_fd hdata).post old .modified
          have hput := (hout.post old .modified).put (B := B) data event needRes timeout ans.clock hdrop
            (fun _ => Function.update_self ..) ticks
          rw [(post_frame old .modified _).2.2.2.1] at hput
          exact hput.congr rfl rfl
  | del fd =>
    simp only [exec, Poller.del]
    split
    · exact h
    split
    · exact h
    split
    · exact h
    · rename_i n hn
      exact ((h.unlink reg ((reg.nodes _ n).1 hn).1).leave n).post n .deleted
  | setTimeout ans fd timeout =>
    simp only [exec, Poller.setTimeout]
    split
    · exact h
    split
    · exact h
    split
    · exact h
    · rename_i n hn
      have hlive := ((reg.nodes _ n).1 hn).1
      obtain ⟨hreg, hflag⟩ := reg.unlink (B := B) hlive
      refine ((h.unlink reg hlive).setTime _ hreg).insertTimeo timeout (hreg.setTime _) hflag fun ht => ?_
      show 0 < (Function.update (p.unlink B n).timeout n _ n).ns
      rw [Function.update_self, if_pos ht, Timespec.after, Timespec.ns_plus]
      have : 0 < ans.clock.ns := ticks
      omega
  | addTimer ans value =>
    simp only [exec, Poller.addTimer]
    split
    · exact h
    · have hreg := reg.newNode ⟨.timer, -1, false⟩ 0 false
        (some (ans.clock.plus value.sec value.nsec value.normal)) (by simp)
      refine (h.newNode _ _ _ _ reg).insertNode hreg (Function.update_self ..) ?_
      rw [newNode_due, Timespec.ns_plus]
      have : 0 < ans.clock.ns := ticks
      omega

/-- **`__poller_set_timer`** arms the timer for the first node that is due. -/
theorem setTimer_timely {w' : Prop} (reg : p.Holds [] p.nodes) (h : p.Timely w') : p.setTimer.Timely w := by
  have hpos := h.positive
  -- the node chosen is due no later than any
  have harm : ∀ n ∈ p.timed, (∀ m ∈ p.timed, p.due n ≤ p.due m) → (p.setTimerfd (p.timeout n)).Timely w := by
    intro n hn hle
    exact ⟨hpos, fun _ _ m hm => ⟨_, setTimerfd_pos (hpos n hn) p, hle m hm⟩⟩
  have hlist : ∀ n, p.timeoList.head? = some n → n ∈ p.timed ∧ ∀ m ∈ p.timeoList, p.due n ≤ p.due m := fun n hn =>
    ⟨List.mem_append_left _ (List.mem_of_head? hn), TimeoQueue.sorted_head_le reg.queue.list hn⟩
  have htree : ∀ n, p.treeFirst = some n → n ∈ p.timed ∧ ∀ m ∈ inorder p.timeoTree, p.due n ≤ p.due m := fun n hn => by
    rw [reg.queue.first] at hn
    exact ⟨List.mem_append_right _ (List.mem_of_head? hn), TimeoQueue.sorted_head_le reg.queue.tree hn⟩
  unfold setTimer
  cases hl : p.timeoList.head? with
  | none =>
    have hnil := List.head?_eq_none_iff.1 hl
    cases hf : p.treeFirst with
    | none =>
      have hnil' := reg.queue.first ▸ hf
      rw [List.head?_eq_none_iff] at hnil'
      have hempty : p.timed = [] := by rw [TimeoQueue.timed, hnil, hnil']; rfl
      refine ⟨hpos, fun _ _ m hm => ?_⟩
      have hm : m ∈ p.timed := hm
      rw [hempty] at hm
      cases hm
    | some first =>
      refine harm first (htree first hf).1 fun m hm => ?_
      rw [TimeoQueue.timed, hnil, List.nil_append] at hm
      exact (htree first hf).2 m hm
  | some n =>
    cases hf : p.treeFirst with
    | none =>
      have hnil' := reg.queue.first ▸ hf
      rw [List.head?_eq_none_iff] at hnil'
      refine harm n (hlist n hl).1 fun m hm => ?_
      rw [TimeoQueue.timed, hnil', List.append_nil] at hm
      exact (hlist n hl).2 m hm
    | some first =>
      have hn := hlist n hl
      have hfirst := htree first hf
      by_cases hlt : p.cmp first n < 0
      · simp only [if_pos hlt]
        have hlt := TimeoQueue.cmp_lt.1 hlt
        refine harm first hfirst.1 fun m hm => ?_
        rcases List.mem_append.1 hm with hm | hm
        · exact Nat.le_trans (Nat.le_of_lt hlt) (hn.2 m hm)
        · exact hfirst.2 m hm
      · simp only [if_neg hlt]
        have hle := Nat.le_of_not_lt fun h => hlt (TimeoQueue.cmp_lt.2 h)
        refine harm n hn.1 fun m hm => ?_
        rcases List.mem_append.1 hm with hm | hm
        · exact hn.2 m hm
        · exact Nat.le_trans hle (hfirst.2 m hm)

theorem handleTimeout_timely {w' : Prop} (time : Timespec) (h : p.Timely w') (reg : p.Holds [] p.nodes) (hw : ¬ w) :
    (p.handleTimeout B time).2.Timely w := by
  obtain ⟨-, -, htimed, htime, -⟩ := TimeoQueue.expire_ok (B := B) time reg.queue
  have hqueue : { p with toTimeoQueue := (p.toTimeoQueue.expire B time).2 }.Timely w' :=
    h.shrink htimed (fun m _ => TimeoQueue.due_congr htime m) rfl
  have hall : ∀ (l : List NodeId) (q : Poller), q.Timely w' → (l.foldl (fun q n => Poller.leave n q) q).Timely w' := by
    intro l
    induction l with
    | nil => exact fun _ h => h
    | cons n l ih => exact fun q h => ih _ (h.leave n)
  exact ⟨(hall _ _ hqueue).positive, fun h => absurd h hw⟩

end Poller

/-! ## Every run -/

open Lts

/-- Once `poller_stop` is through the thread is gone; before, the timer is in time. -/
def PollerSys.InTime (cap : Nat) (s : PollerSys) : Prop :=
  (s.stop = .swept ∧ s.thread = .exited) ∨ (s.Ok cap ∧ s.poller.Timely (s.thread = .waiting))

def PollerAct.Ticks : PollerAct → Prop
  | .op o => o.Ticks
  | _ => True

namespace PollerStep

variable {B : Balance NodeId} {cap : Nat} {s s' : PollerSys} {a : PollerAct}

/-- A step of the thread, or of `poller_stop`, keeps the timer in time. -/
theorem timely (ok : s.Ok cap) (h : s.poller.Timely (s.thread = .waiting)) (ticks : a.Ticks) (notSweep : a ≠ .sweep)
    (step : PollerStep B cap s a s') : s'.poller.Timely (s'.thread = .waiting) := by
  have hmoves : ∀ {th : PollerPc} {p : Poller}, th ≠ .waiting → p.toTimeoQueue = s.poller.toTimeoQueue →
      p.Timely (th = .waiting) := fun {th p} hne hq =>
    ⟨fun n hn => by rw [hq] at hn ⊢; exact h.positive n hn, fun hw => absurd hw hne⟩
  cases step with
  | op op free late room => exact Poller.exec_timely free ticks ok.registry h
  | start thread => exact hmoves (by simp) rfl
  | setTimer thread => exact Poller.setTimer_timely ok.registry h
  | fire t armed => exact ⟨h.positive, fun _ hf => absurd rfl hf⟩
  | wake clock batch pipe thread ready once readable => exact hmoves (by simp) rfl
  | event n batch pipe thread => exact hmoves (by simp) rfl
  | handle n batch pipe thread => exact h
  | ssl n batch pipe event ok thread =>
    dsimp only
    split
    · exact h
    · exact h.congr rfl rfl
  | handled n batch pipe thread => exact hmoves (by simp) rfl
  | remove n batch pipe thread =>
    obtain ⟨hplace, -⟩ := ok.batch n (by rw [thread]; exact List.mem_cons_self)
    by_cases hr : (s.poller.node n).removed = true
    · rw [show s.poller.removeNode B n = (true, s.poller) from if_pos hr]
      exact hmoves (by simp) rfl
    · rw [show s.poller.removeNode B n = (false, (s.poller.unlink B n).leave n) from if_neg hr]
      have hlive : n ∈ s.poller.live := hplace.resolve_right fun hp => hr (ok.accounts.posted_flag n hp).1
      exact ⟨((h.unlink ok.registry hlive).leave n).positive, fun hw => by cases hw⟩
  | finish n batch pipe state error thread ends => exact hmoves (by simp) rfl
  | readPipe thread => exact hmoves (by simp) rfl
  | noPipe thread => exact hmoves (by simp) rfl
  | pipeNode n l stop thread => exact hmoves (by simp) rfl
  | pipeNull l stop thread => exact hmoves (by simp) rfl
  | pipeDone stop thread => cases stop <;> exact hmoves (by simp) rfl
  | timeout thread => exact Poller.handleTimeout_timely s.time h ok.registry (by simp)
  | expire n l thread => exact hmoves (by simp) rfl
  | again thread => exact hmoves (by simp) rfl
  | post begun stop room => exact h.congr rfl rfl
  | join stop thread => exact h.congr rfl rfl
  | sweep stop => exact absurd rfl notSweep

theorem inTime (h : s.InTime cap) (ticks : a.Ticks) (step : PollerStep B cap s a s') : s'.InTime cap := by
  rcases h with ⟨hstop, hthread⟩ | ⟨hok, htime⟩
  · cases step with
    | op op free late room => exact Or.inl ⟨hstop, hthread⟩
    | fire t armed => exact Or.inl ⟨hstop, hthread⟩
    | handle n batch pipe thread => exact Or.inl ⟨hstop, hthread⟩
    | ssl n batch pipe event ok thread => exact Or.inl ⟨hstop, hthread⟩
    | post begun stop room => rw [hstop] at stop; cases stop
    | join stop thread => rw [hstop] at stop; cases stop
    | sweep stop => rw [hstop] at stop; cases stop
    | _ => simp_all
  · by_cases ha : a = .sweep
    · subst ha
      cases step with
      | sweep stop => exact Or.inl ⟨rfl, hok.joined (Or.inl stop)⟩
    · exact Or.inr ⟨step.ok hok fun h => absurd h ha, step.timely hok htime ticks ha⟩

end PollerStep

/-- **No timer is missed**: while the thread waits and the timer has not fired, it is armed no later than for any node
with a timeout. -/
theorem timer_armed (B : Balance NodeId) {cap maxOpenFiles pipeRd pipeWr : Nat} {s : PollerSys}
    (run : Reaches (PollerStep B cap) (fun _ a => a.Ticks) (PollerSys.start maxOpenFiles pipeRd pipeWr) s)
    (waiting : s.thread = .waiting) (unfired : s.poller.timerfd ≠ .fired) :
    ∀ n ∈ s.poller.timeoList ++ inorder s.poller.timeoTree,
      ∃ t, s.poller.timerfd = .armed t ∧ t.ns ≤ (s.poller.timeout n).ns := by
  have h := run.keeps (P := fun s => s.InTime cap) (fun _ _ _ h ticks step => step.inTime h ticks) (Or.inr
    ⟨PollerSys.start_ok cap maxOpenFiles pipeRd pipeWr, fun _ h => (by cases h), fun h => (by cases h)⟩)
  rcases h with ⟨-, hthread⟩ | ⟨-, htime⟩
  · rw [hthread] at waiting
    cases waiting
  · exact htime.armed waiting unfired

/-- A timeout that comes before the one the timer is armed for. -/
theorem timer_armed_earlier : ∃ s : PollerSys, s.poller.timerfd = .armed ⟨6, 0, by decide⟩ ∧
    ∀ n ∈ s.poller.timeoList ++ inorder s.poller.timeoTree,
      ∃ t, s.poller.timerfd = .armed t ∧ t.ns ≤ (s.poller.timeout n).ns := by
  let ans : SysAnswers := ⟨⟨5, 0, by decide⟩, true, true, true⟩
  have hclock : 0 < ans.clock.ns := by decide
  have run : Reaches (PollerStep (unbalanced NodeId) 8192) (fun _ a => a.Ticks) (.start 16 3 4) (.start 16 3 4) := .start
  have run := Reaches.next (a := PollerAct.start) run trivial (.start rfl)
  have run := Reaches.next (a := PollerAct.op (.add ans ⟨.write, 5, false⟩ 2000)) run hclock (.op _ trivial
    (by simp [PollerSys.start, Poller.create]) (by decide))
  have run := Reaches.next (a := PollerAct.setTimer) run trivial (.setTimer rfl)
  have run := Reaches.next (a := PollerAct.op (.add ans ⟨.write, 6, false⟩ 1000)) run hclock (.op _ trivial
    (by simp [PollerSys.start, Poller.create]) (by decide))
  exact ⟨_, by decide, timer_armed (unbalanced NodeId) run rfl (by decide)⟩

end Tinywf
