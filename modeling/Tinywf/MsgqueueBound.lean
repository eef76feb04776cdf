import Mathlib.Algebra.Group.Nat.Defs
import Tinywf.Msgqueue
/-!
# MsgqueueBound — how many messages a queue in blocking mode holds

A put goes on only when fewer than `msg_max` messages are in the put list, and a swap is the only step that brings
messages to the get list: all of the put list's, when the get list is drained.  So neither holds more than `msg_max`.
-/
namespace Tinywf

open Chain Lts

variable {θ : Type}

/-- The queue is in blocking mode. -/
def QueueSys.Blocking (s : QueueSys θ) (_ : θ) : Prop := s.queue.nonblock = false

/-- Neither list holds more than `maxlen` messages: the put list by its count, the get list by what is not got yet. -/
structure QueueSys.Within (s : QueueSys θ) (maxlen : Nat) : Prop where
  msgMax : s.queue.msgMax = maxlen
  put : s.queue.msgCnt ≤ maxlen
  get : s.puts.length ≤ s.gets.length + s.queue.msgCnt + maxlen

variable [DecidableEq θ] {s s' : QueueSys θ} {a : θ} {maxlen : Nat} {lg lp : List Int}

omit [DecidableEq θ] in
theorem QueueSys.Ok.pending_length (h : s.Ok lg lp) : s.puts.length = s.gets.length + lg.length + lp.length := by
  rw [h.pending, List.length_append, List.length_map, List.length_append, Nat.add_assoc]

/-- **A put that does not wait finds room in the put list.** -/
theorem Msgqueue.put_room {q : Msgqueue} (pos : 1 ≤ q.msgMax) (size : q.msgMax < 2 ^ 64) (mode : q.nonblock = false)
    (room : q.putWaits = false) : q.msgCnt + 1 ≤ q.msgMax := by
  unfold Msgqueue.putWaits at room
  simp only [mode, Bool.not_false, Bool.and_true, decide_eq_false_iff_not, gt_iff_lt, Nat.not_lt] at room
  omega

omit [DecidableEq θ] in
theorem QueueSys.puts_put (s s' : QueueSys θ) (msg : Int) (hlog : s'.log = s.log ++ [(a, .put msg)]) :
    s'.puts.length = s.puts.length + 1 ∧ s'.gets = s.gets := by
  simp [QueueSys.puts, QueueSys.gets, hlog, QueueEvent.putMsg, QueueEvent.getMsg]

omit [DecidableEq θ] in
theorem QueueSys.puts_get (s s' : QueueSys θ) (msg : Int) (hlog : s'.log = s.log ++ [(a, .get msg)]) :
    s'.puts = s.puts ∧ s'.gets.length = s.gets.length + 1 := by
  simp [QueueSys.puts, QueueSys.gets, hlog, QueueEvent.putMsg, QueueEvent.getMsg]

omit [DecidableEq θ] in
theorem QueueSys.puts_other (s s' : QueueSys θ) (e : QueueEvent) (put : e.putMsg = none) (get : e.getMsg = none)
    (hlog : s'.log = s.log ++ [(a, e)]) : s'.puts = s.puts ∧ s'.gets = s.gets := by
  simp [QueueSys.puts, QueueSys.gets, hlog, put, get]

theorem Msgqueue.pop_cnt {q q' : Msgqueue} {msg : Int} (h : q.pop = some (msg, q')) :
    q'.msgMax = q.msgMax ∧ q'.msgCnt = q.msgCnt := by
  unfold Msgqueue.pop at h
  split at h
  · cases h
    exact ⟨rfl, rfl⟩
  · cases h

/-- **A step in blocking mode keeps both lists within `maxlen`.** -/
theorem QueueStep.within (ok : s.Ok lg lp) (pos : 1 ≤ maxlen) (size : maxlen < 2 ^ 64) (h : s.Within maxlen)
    (mode : s.Blocking a) (step : QueueStep s a s') : s'.Within maxlen := by
  have full := ok.pending_length
  have count := ok.lists.cnt
  have before := h.get
  have atMost := h.put
  -- the messages a get takes off leave the put list and its count alone
  have got : ∀ (s' : QueueSys θ) (msg : Int) (q : Msgqueue), s.queue.pop = some (msg, q) → s'.queue = q →
      s'.log = s.log ++ [(a, .get msg)] → s'.Within maxlen := by
    intro s' msg q pop hq hlog
    obtain ⟨hmax, hcnt⟩ := Msgqueue.pop_cnt pop
    obtain ⟨hputs, hgets⟩ := QueueSys.puts_get s s' msg hlog
    refine ⟨by rw [hq, hmax, h.msgMax], by rw [hq, hcnt]; exact h.put, ?_⟩
    rw [hq, hcnt, hputs, hgets]
    omega
  cases step with
  | putCall msg idle out unused => exact ⟨h.msgMax, h.put, h.get⟩
  | putWait msg at_lock waits => exact ⟨h.msgMax, h.put, h.get⟩
  | putWake msg waits => exact ⟨h.msgMax, h.put, h.get⟩
  | putLink msg at_lock room =>
    have fits := Msgqueue.put_room (by rw [h.msgMax]; exact pos) (by rw [h.msgMax]; exact size) mode room
    rw [h.msgMax] at fits
    obtain ⟨hputs, hgets⟩ := QueueSys.puts_put s
      { s.go a .put with queue := s.queue.putLink msg, log := s.log ++ [(a, .put msg)] } msg rfl
    refine ⟨h.msgMax, fits, ?_⟩
    rw [hputs, hgets]
    show _ ≤ _ + (s.queue.msgCnt + 1) + maxlen
    omega
  | putSignal linked => exact ⟨h.msgMax, h.put, h.get⟩
  | getPop msg q idle lock pop => exact got _ msg q pop rfl rfl
  | getSwap idle lock drained => exact ⟨h.msgMax, h.put, h.get⟩
  | swapWait c at_lock waits => exact ⟨h.msgMax, h.put, h.get⟩
  | swapWake c waits => exact ⟨h.msgMax, h.put, h.get⟩
  | swapSome c at_lock goes some =>
    have drained := ok.drained at_lock
    refine ⟨h.msgMax, Nat.zero_le _, ?_⟩
    show s.puts.length ≤ s.gets.length + 0 + maxlen
    rw [drained, List.length_nil] at full
    omega
  | swapNone c at_lock goes none =>
    have nothing : s.queue.msgCnt = 0 := none
    obtain ⟨hputs, hgets⟩ := QueueSys.puts_other s
      { s.go a (.swapped 0) with queue := (s.queue.swapEnd c).2, log := s.log ++ [(a, .empty)] } .empty rfl rfl rfl
    refine ⟨h.msgMax, Nat.zero_le _, ?_⟩
    rw [hputs, hgets]
    show _ ≤ _ + 0 + maxlen
    omega
  | getSwapped cnt msg q swapped pop => exact got _ msg q pop rfl rfl
  | getNull swapped => exact ⟨h.msgMax, h.put, h.get⟩
  | setNonblock idle =>
    obtain ⟨hputs, hgets⟩ := QueueSys.puts_other s
      { s.go a .nonblock with queue := { s.queue with nonblock := true }, log := s.log ++ [(a, .mode true)] }
      (.mode true) rfl rfl rfl
    refine ⟨h.msgMax, h.put, ?_⟩
    rw [hputs, hgets]
    exact h.get
  | nonblockSignal set => exact ⟨h.msgMax, h.put, h.get⟩
  | setBlock idle =>
    obtain ⟨hputs, hgets⟩ := QueueSys.puts_other s
      { s with queue := { s.queue with nonblock := false }, log := s.log ++ [(a, .mode false)] } (.mode false) rfl rfl rfl
    refine ⟨h.msgMax, h.put, ?_⟩
    rw [hputs, hgets]
    exact h.get

/-- **In blocking mode neither list ever holds more than `maxlen` messages, and so no more than twice as many are
pending.** -/
theorem msgqueue_bound {s₀ : QueueSys θ} {linkoff : Int} {mem : Cell → Option Int} (init : s₀.Init)
    (queue : s₀.queue = Msgqueue.create maxlen linkoff mem) (pos : 1 ≤ maxlen) (size : maxlen < 2 ^ 64)
    (run : Reaches QueueStep QueueSys.Blocking s₀ s) :
    (∀ lp, Chained s.queue.mem Cell.link s.queue.putHead lp → lp.length ≤ maxlen) ∧
    (∀ lg, Chained s.queue.mem Cell.link s.queue.getHead lg → lg.length ≤ maxlen) ∧
    ∃ pending, s.puts = s.gets ++ pending ∧ pending.length ≤ 2 * maxlen := by
  have within : s.Within maxlen := by
    refine Reaches.keeps_of (Q := fun t : QueueSys θ => ∃ lg lp, t.Ok lg lp) (P := fun t => t.Within maxlen)
      (fun t before => QueueSys.reaches_ok init before.anyway) ?_ ?_ run
    · rintro s a t ⟨lg, lp, ok⟩ h mode step
      exact step.within ok pos size h mode
    · refine ⟨by rw [queue]; rfl, by rw [queue]; exact Nat.zero_le _, ?_⟩
      simp [QueueSys.puts, init.log]
  obtain ⟨lg, lp, ok⟩ := QueueSys.reaches_ok init run.anyway
  have full := ok.pending_length
  have count := ok.lists.cnt
  have put := within.put
  have get := within.get
  refine ⟨fun l hl => ?_, fun l hl => ?_, _, ok.pending, ?_⟩
  · rw [hl.unique ok.lists.put]
    omega
  · by_cases hs : s.swap = none
    · rw [hl.unique (ok.lists.between hs).1]
      omega
    · -- in a swap both heads are the put list's
      obtain ⟨c, hc⟩ := Option.ne_none_iff_exists'.1 hs
      obtain ⟨-, same, -⟩ := ok.lists.inside c hc
      rw [same] at hl
      rw [hl.unique ok.lists.put]
      omega
  · rw [List.length_map, List.length_append]
    omega

/-- A queue of one, and the message put into it. -/
theorem msgqueue_bound_one : ∃ s, Reaches QueueStep QueueSys.Blocking (emptyQueue 1) s ∧ s.puts = [8] ∧
    ∀ lp, Chained s.queue.mem Cell.link s.queue.putHead lp → lp.length ≤ 1 := by
  have r0 : Reaches QueueStep QueueSys.Blocking (emptyQueue 1) (emptyQueue 1) := .start
  have r1 := r0.next (a := true) rfl (.putCall 8 rfl (by decide) (by decide))
  have r2 := r1.next (a := true) rfl (.putLink 8 rfl (by decide))
  exact ⟨_, r2, rfl, (msgqueue_bound (emptyQueue_init 1) rfl (Nat.le_refl 1) (by decide) r2).1⟩

end Tinywf
