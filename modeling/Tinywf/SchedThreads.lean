import Tinywf.Lts
import Tinywf.SchedSections
/-!
# SchedThreads — any number of threads on any number of targets and groups

A step is one section of one thread, what the mutexes make atomic.  A thread that waits is woken by a signal, on the
condition it waits on, or by its timeout; it is then on its way until it has the mutex again and takes its next step.
`held` counts the loads acquired and not yet released: a thread releases only such loads.

`heap_invariant` and `acquire_balanced` are what holds in every state a run reaches.
-/
namespace Tinywf

open BinHeap Lts

variable {τ γ θ : Type}

/-- Where a thread is: outside of `acquire`, in `pthread_cond_wait`, or back from it with what it returned. -/
inductive Thread (τ γ : Type) where
  | running
  | waiting (o : CommSchedObject τ γ) (timed : Bool)
  | woken (o : CommSchedObject τ γ) (timed : Bool) (ret : Option Errno)
  deriving DecidableEq

structure Sys (τ γ θ : Type) where
  sched : Sched τ γ
  thread : θ → Thread τ γ
  held : τ → Nat

inductive Action (τ γ θ : Type) where
  | acquire (a : θ) (o : CommSchedObject τ γ) (waitTimeout : Int)
  | resume (a : θ)
  | timeout (a : θ)
  | release (a : θ) (t : τ) (keepAlive : Int)
  | add (a : θ) (g : γ) (t : τ) (grown : Bool)
  | remove (a : θ) (g : γ) (t : τ)

section
variable [DecidableEq τ] [DecidableEq γ] [DecidableEq θ]

/-- `pthread_cond_signal`, where a section calls it: any one thread that waits on the condition, if there is one. -/
inductive Signalled : Option (CommSchedObject τ γ) → (θ → Thread τ γ) → (θ → Thread τ γ) → Prop where
  | none (f : θ → Thread τ γ) : Signalled none f f
  | wakes {o : CommSchedObject τ γ} {f : θ → Thread τ γ} (a : θ) (timed : Bool) (waits : f a = .waiting o timed) :
      Signalled (some o) f (Function.update f a (.woken o timed .none))
  | nobody {o : CommSchedObject τ γ} {f : θ → Thread τ γ} (idle : ∀ a timed, f a ≠ .waiting o timed) :
      Signalled (some o) f f

/-- Thread `a` leaves a section of `acquire`. -/
def Sys.settle (s : Sys τ γ θ) (a : θ) (o : CommSchedObject τ γ) (timed : Bool) (r : Sched τ γ × Acquired τ) :
    Sys τ γ θ :=
  match r.2 with
  | .got t =>
    { sched := r.1, thread := Function.update s.thread a .running, held := Function.update s.held t (s.held t + 1) }
  | .wait => { s with sched := r.1, thread := Function.update s.thread a (.waiting o timed) }
  | .fail _ => { s with sched := r.1, thread := Function.update s.thread a .running }

inductive Step : Sys τ γ θ → Action τ γ θ → Sys τ γ θ → Prop where
  | acquire {s : Sys τ γ θ} (a : θ) (o : CommSchedObject τ γ) (w : Int) (runs : s.thread a = .running) :
      Step s (.acquire a o w) (s.settle a o (0 < w) (s.sched.acquire o w))
  | resume {s : Sys τ γ θ} (a : θ) (o : CommSchedObject τ γ) (timed : Bool) (ret : Option Errno)
      (back : s.thread a = .woken o timed ret) :
      Step s (.resume a) (s.settle a o timed (s.sched.resume o ret))
  | timeout {s : Sys τ γ θ} (a : θ) (o : CommSchedObject τ γ) (waits : s.thread a = .waiting o true) :
      Step s (.timeout a) { s with thread := Function.update s.thread a (.woken o true (some .ETIMEDOUT)) }
  | release {s : Sys τ γ θ} (a : θ) (t : τ) (k : Int) (f : θ → Thread τ γ) (runs : s.thread a = .running)
      (held : 0 < s.held t) (signal : Signalled (s.sched.release t k).2 s.thread f) :
      Step s (.release a t k)
        { sched := (s.sched.release t k).1, thread := f, held := Function.update s.held t (s.held t - 1) }
  | add {s : Sys τ γ θ} (a : θ) (g : γ) (t : τ) (grown : Bool) (f : θ → Thread τ γ) (runs : s.thread a = .running)
      (signal : Signalled (s.sched.add g t grown).2.1 s.thread f) :
      Step s (.add a g t grown) { s with sched := (s.sched.add g t grown).1, thread := f }
  | remove {s : Sys τ γ θ} (a : θ) (g : γ) (t : τ) (runs : s.thread a = .running) :
      Step s (.remove a g t) { s with sched := (s.sched.remove g t).1 }

end

/-- Targets and groups fresh from `init`, and no thread in `acquire`. -/
structure Sys.Init (s : Sys τ γ θ) : Prop where
  target : ∀ t, ∃ n i, n < 2 ^ 32 ∧ CommSchedTarget.init n i = .ok (s.sched.target t)
  group : ∀ g, ∃ heap, s.sched.group g = CommSchedGroup.init heap
  thread : ∀ a, s.thread a = .running
  held : ∀ t, s.held t = 0

theorem init_target {n i : Nat} {x : CommSchedTarget γ} (h : CommSchedTarget.init n i = .ok x) :
    0 < n ∧ x = { maxLoad := n, curLoad := 0, waitCnt := 0, index := i, group := none } := by
  unfold CommSchedTarget.init at h
  split at h
  · cases h
  · cases h
    exact ⟨by omega, rfl⟩

/-- One target of two slots, one group, three threads. -/
def twoSlots : Sys Unit Unit (Fin 3) where
  sched :=
    { target := fun _ => { maxLoad := 2, curLoad := 0, waitCnt := 0, index := 0, group := none }
      group := fun _ => CommSchedGroup.init fun _ => () }
  thread := fun _ => .running
  held := fun _ => 0

theorem twoSlots_init : twoSlots.Init :=
  ⟨fun _ => ⟨2, 0, by decide, rfl⟩, fun _ => ⟨_, rfl⟩, fun _ => rfl, fun _ => rfl⟩

/-- What holds between two steps. -/
structure Sys.Ok [DecidableEq τ] (s : Sys τ γ θ) : Prop where
  sched : s.sched.Ok
  held : ∀ t, s.held t = (s.sched.target t).curLoad

section
variable [DecidableEq τ]

theorem Sys.Init.ok {s : Sys τ γ θ} (h : s.Init) : s.Ok := by
  have target : ∀ t, 0 < (s.sched.target t).maxLoad ∧ (s.sched.target t).maxLoad < 2 ^ 32 ∧
      (s.sched.target t).curLoad = 0 ∧ (s.sched.target t).group = none := by
    intro t
    obtain ⟨n, i, hn, e⟩ := h.target t
    obtain ⟨h0, e⟩ := init_target e
    rw [e]
    exact ⟨h0, hn, rfl, rfl⟩
  refine ⟨⟨⟨fun t => (target t).1, fun t => (target t).2.1, fun t => ?_⟩, fun g => ⟨∅, ?_⟩⟩, fun t => ?_⟩
  · rw [(target t).2.2.1]
    exact Nat.zero_le _
  · obtain ⟨heap, e⟩ := h.group g
    have size : (s.sched.group g).heapSize = 0 := by rw [e]; rfl
    refine ⟨⟨fun i hi => ?_, ?_⟩, fun c hc hcm => ?_, fun t => ?_, ?_, ?_, ?_, ?_⟩
    · omega
    · rw [size]
      rfl
    · omega
    · simp [(target t).2.2.2]
    · rw [e]
      rfl
    · rw [e]
      rfl
    · rw [size]
      exact Nat.zero_le _
    · rw [e]
      exact Nat.zero_lt_succ 3
  · rw [h.held, (target t).2.2.1]

end

section
variable [DecidableEq τ] [DecidableEq γ] [DecidableEq θ] {s s' : Sys τ γ θ}

/-! ## What every step keeps -/

variable {a : θ} {o : CommSchedObject τ γ} {timed : Bool}

section
variable (s : Sys τ γ θ) (a : θ) (o : CommSchedObject τ γ) (timed : Bool) (s' : Sched τ γ)

omit [DecidableEq γ] in
theorem settle_got_thread (t : τ) :
    (s.settle a o timed (s', .got t)).thread = Function.update s.thread a .running := rfl

omit [DecidableEq γ] in
theorem settle_wait_thread :
    (s.settle a o timed (s', .wait)).thread = Function.update s.thread a (.waiting o timed) := rfl

omit [DecidableEq γ] in
theorem settle_fail_thread (e : Errno) :
    (s.settle a o timed (s', .fail e)).thread = Function.update s.thread a .running := rfl

end

/-- Taking a load for a thread. -/
theorem settle_take_ok (h : s.Ok) {s1 : Sched τ γ} {t : τ} (h1 : s1.Ok)
    (loads : ∀ t, (s1.target t).curLoad = (s.sched.target t).curLoad)
    (fits : (s1.target t).curLoad < (s1.target t).maxLoad) : (s.settle a o timed (s1.takeTarget t, .got t)).Ok := by
  refine ⟨Sched.takeTarget_ok h1 fits, fun u => ?_⟩
  show Function.update s.held t (s.held t + 1) u = ((s1.takeTarget t).target u).curLoad
  rw [Sched.takeTarget_target, Function.update_apply]
  simp only
  split <;> rw [h.held, loads]

omit [DecidableEq γ] in
/-- Leaving a section without a load. -/
theorem settle_ok (h : s.Ok) {s1 : Sched τ γ} {r : Acquired τ} (h1 : s1.Ok)
    (loads : ∀ t, (s1.target t).curLoad = (s.sched.target t).curLoad) (hr : ∀ t, r ≠ .got t) :
    (s.settle a o timed (s1, r)).Ok := by
  cases r with
  | got t => exact absurd rfl (hr t)
  | wait =>
    refine ⟨h1, fun u => ?_⟩
    show s.held u = (s1.target u).curLoad
    rw [h.held, loads]
  | fail e =>
    refine ⟨h1, fun u => ?_⟩
    show s.held u = (s1.target u).curLoad
    rw [h.held, loads]

theorem setWaitCnt_curLoad (s : Sched τ γ) (n : Nat) (o : CommSchedObject τ γ) (u : τ) :
    ((s.setWaitCnt n o).target u).curLoad = (s.target u).curLoad := by
  rw [Sched.setWaitCnt_target]

theorem joined_curLoad {s : Sched τ γ} (h : s.Ok) (g : γ) (t : τ) (grown : Bool) (u : τ) :
    ((s.add g t grown).1.target u).curLoad = (s.target u).curLoad := by
  rcases Sched.add_cases s g t grown with ⟨s1, ht, -, hs, e, -⟩ | ⟨e, -⟩
  · obtain ⟨E, ok⟩ := h.groups g
    have hr := Sched.heapInsert_spec ok h.toBounded (by rw [ok.mem_iff, ht]; simp) hs
    rw [e, Sched.joined_target, hr.target u]
  · rw [e]

theorem remove_curLoad {s : Sched τ γ} (h : s.Ok) (g : γ) (t u : τ) :
    ((s.remove g t).1.target u).curLoad = (s.target u).curLoad := by
  rcases Sched.remove_cases s g t with ⟨ht, -, e⟩ | e
  · obtain ⟨E, ok⟩ := h.groups g
    have hr := Sched.heapRemove_spec ok h.toBounded ((ok.mem_iff t).2 ht)
    rw [e, Sched.left_target, hr.target u]
  · rw [e]

/-- **Every step keeps the heaps, the sums and the bounds.** -/
theorem Step.ok {x : Action τ γ θ} (h : s.Ok) (step : Step s x s') : s'.Ok := by
  cases step with
  | acquire a o w runs =>
    rcases Sched.acquire_cases h.sched o w with ⟨-, -, e⟩ | ⟨-, -, e⟩ | ⟨t, ht, e⟩ <;> rw [e]
    · exact settle_ok h (Sched.setWaitCnt_ok h.sched _ o) (setWaitCnt_curLoad _ _ _) (fun t => by simp)
    · exact settle_ok h h.sched (fun _ => rfl) (fun t => by simp)
    · exact settle_take_ok h h.sched (fun _ => rfl) ht.fits
  | resume a o timed ret back =>
    have h1 := Sched.setWaitCnt_ok h.sched (s.sched.waitCnt o - 1) o
    rcases Sched.resume_cases h.sched o ret with ⟨-, -, e⟩ | ⟨-, r, -, e⟩ | ⟨t, ht, e⟩ <;> rw [e]
    · refine settle_ok h (Sched.setWaitCnt_ok h1 _ o) (fun u => ?_) (fun t => by simp)
      rw [setWaitCnt_curLoad, setWaitCnt_curLoad]
    · exact settle_ok h h1 (setWaitCnt_curLoad _ _ _) (fun t => by simp)
    · refine settle_take_ok h h1 (setWaitCnt_curLoad _ _ _) ?_
      rw [Sched.setWaitCnt_target]
      exact ht.fits
  | timeout a o waits => exact ⟨h.sched, h.held⟩
  | release a t k f runs held signal =>
    rw [h.held] at held
    refine ⟨Sched.release_ok h.sched held k, fun u => ?_⟩
    rw [Sched.release_target]
    simp only [Function.update_apply]
    split <;> rw [h.held]
  | add a g t grown f runs signal =>
    refine ⟨Sched.add_ok h.sched g t grown, fun u => ?_⟩
    rw [joined_curLoad h.sched]
    exact h.held u
  | remove a g t runs =>
    refine ⟨Sched.remove_ok h.sched g t, fun u => ?_⟩
    rw [remove_curLoad h.sched]
    exact h.held u

/-- **Every state a run reaches is in order.** -/
theorem reaches_ok {ok : Sys τ γ θ → Action τ γ θ → Prop} {s₀ : Sys τ γ θ} (init : s₀.Init)
    (run : Reaches Step ok s₀ s) : s.Ok :=
  run.keeps (fun _ _ _ h _ step => step.ok h) init.ok

/-! ## The heap and the sums -/

/-- **In every state that any sequence of steps reaches, a group's heap is a heap of its members, and its loads are
the sums of theirs.** -/
theorem heap_invariant {s₀ : Sys τ γ θ} (init : s₀.Init) (run : Reaches Step always s₀ s) (g : γ) :
    (∀ t, (s.sched.target t).group = some g → ∃! i, i < (s.sched.group g).heapSize ∧ (s.sched.group g).tgHeap i = t) ∧
    (∀ i < (s.sched.group g).heapSize, (s.sched.target ((s.sched.group g).tgHeap i)).group = some g ∧
      (s.sched.target ((s.sched.group g).tgHeap i)).index = i) ∧
    (∀ i c, c = 2 * i + 1 ∨ c = 2 * i + 2 → c < (s.sched.group g).heapSize →
      s.sched.targetCmp ((s.sched.group g).tgHeap i) ((s.sched.group g).tgHeap c) ≤ 0) ∧
    (s.sched.group g).maxLoad =
      ∑ i ∈ Finset.range (s.sched.group g).heapSize, (s.sched.target ((s.sched.group g).tgHeap i)).maxLoad ∧
    (s.sched.group g).curLoad =
      ∑ i ∈ Finset.range (s.sched.group g).heapSize, (s.sched.target ((s.sched.group g).tgHeap i)).curLoad := by
  have h := (reaches_ok init run).sched
  obtain ⟨E, ok⟩ := h.groups g
  refine ⟨fun t ht => ?_, fun i hi => ?_, fun i c hc hlt => ?_, ?_, ?_⟩
  · have hE : t ∈ E := (ok.mem_iff t).2 ht
    refine ⟨(s.sched.target t).index, ⟨ok.holds.pos_lt hE, ok.holds.slot_pos hE⟩, ?_⟩
    rintro i ⟨hi, e⟩
    exact ok.holds.slot_inj hi (ok.holds.pos_lt hE) (e.trans (ok.holds.slot_pos hE).symm)
  · exact ⟨(ok.mem_iff _).1 (ok.holds.slot_mem hi), ok.holds.pos_slot i hi⟩
  · rw [h.targetCmp_le]
    have hp : parent c = i := by
      unfold parent
      omega
    have := ok.ordered c (by omega) hlt
    rwa [hp] at this
  · rw [ok.maxLoad_eq]
    exact (ok.holds.sum_range fun t => (s.sched.target t).maxLoad).symm
  · rw [ok.curLoad_eq]
    exact (ok.holds.sum_range fun t => (s.sched.target t).curLoad).symm

/-- Three targets, of one, two and three slots, one group, two threads. -/
def threeTargets : Sys (Fin 3) Unit (Fin 2) where
  sched :=
    { target := fun t => { maxLoad := t + 1, curLoad := 0, waitCnt := 0, index := 0, group := none }
      group := fun _ => CommSchedGroup.init fun _ => Fin.last 2 }
  thread := fun _ => .running
  held := fun _ => 0

theorem threeTargets_init : threeTargets.Init :=
  ⟨fun t => ⟨t + 1, 0, by omega, rfl⟩, fun _ => ⟨_, rfl⟩, fun _ => rfl, fun _ => rfl⟩

/-- Each target has a load, and the one of three slots is the root of the heap. -/
theorem threeTargets_run : ∃ s, Reaches Step always threeTargets s ∧ (s.sched.group ()).heapSize = 3 ∧
    (s.sched.group ()).curLoad = 3 ∧ (s.sched.group ()).tgHeap 0 = 2 ∧ (∀ t, (s.sched.target t).curLoad = 1) ∧
    (CommSchedGroup.acquire s.sched () 0).2 = .got 2 := by
  have r0 : Reaches Step always threeTargets threeTargets := .start
  have r1 := r0.next trivial (Step.add 0 () 0 true _ rfl (.none _))
  have r2 := r1.next trivial (Step.add 1 () 1 true _ rfl (.none _))
  have r3 := r2.next trivial (Step.add 0 () 2 true _ rfl (.none _))
  have r4 := r3.next trivial (Step.acquire 0 (.group ()) 0 rfl)
  have r5 := r4.next trivial (Step.acquire 1 (.group ()) 0 rfl)
  have r6 := r5.next trivial (Step.acquire 0 (.group ()) 0 rfl)
  exact ⟨_, r6, by decide +kernel⟩

theorem heap_invariant_three : ∃ s, Reaches Step always threeTargets s ∧ (s.sched.group ()).tgHeap 0 = 2 ∧
    (∀ i c, c = 2 * i + 1 ∨ c = 2 * i + 2 → c < 3 →
      s.sched.targetCmp ((s.sched.group ()).tgHeap i) ((s.sched.group ()).tgHeap c) ≤ 0) ∧
    3 = ∑ i ∈ Finset.range 3, (s.sched.target ((s.sched.group ()).tgHeap i)).curLoad := by
  obtain ⟨s, run, size, load, root, -⟩ := threeTargets_run
  have h := heap_invariant threeTargets_init run ()
  rw [size, load] at h
  exact ⟨s, run, root, h.2.2.1, h.2.2.2.2⟩

omit [DecidableEq γ] [DecidableEq θ] in
/-- What a group's `acquire` chose, at its first section or once woken. -/
theorem takes_least {s : Sched τ γ} (h : s.Ok) {g : γ} {t : τ} (ht : s.Takes (.group g) t) :
    0 < (s.group g).heapSize ∧ (s.target t).group = some g ∧ (s.target t).curLoad < (s.target t).maxLoad ∧
      ∀ u, (s.target u).group = some g → s.ratio t ≤ s.ratio u := by
  obtain ⟨hpos, hroot, -, hlt, least⟩ := Sched.root_spec h ht.room
  obtain ⟨rfl, -⟩ := ht.root g rfl
  exact ⟨hpos, hroot, hlt, least⟩

/-- **The scheduler never overloads a target, takes a least-loaded one, and takes one whenever the group has room.** -/
theorem acquire_balanced {s₀ : Sys τ γ θ} (init : s₀.Init) (run : Reaches Step always s₀ s) :
    (∀ t, (s.sched.target t).curLoad ≤ (s.sched.target t).maxLoad) ∧
    (∀ (g : γ) (s' : Sched τ γ) (t : τ),
      (∃ w, CommSchedGroup.acquire s.sched g w = (s', .got t)) ∨ (∃ ret, s.sched.resume (.group g) ret = (s', .got t)) →
      0 < (s.sched.group g).heapSize ∧ (s.sched.target t).group = some g ∧
        (s.sched.target t).curLoad < (s.sched.target t).maxLoad ∧
        ∀ u, (s.sched.target u).group = some g →
          ((s.sched.target t).curLoad : ℚ) / (s.sched.target t).maxLoad ≤
            (s.sched.target u).curLoad / (s.sched.target u).maxLoad) ∧
    (∀ g, (s.sched.group g).curLoad < (s.sched.group g).maxLoad →
      ∃ s' t, CommSchedGroup.acquire s.sched g 0 = (s', .got t)) := by
  have h := (reaches_ok init run).sched
  refine ⟨h.le, fun g s' t ht => takes_least h ?_, fun g hg => ?_⟩
  · rcases ht with ⟨w, ht⟩ | ⟨ret, ht⟩
    · unfold CommSchedGroup.acquire at ht
      rcases Sched.acquire_cases h (.group g) w with ⟨-, -, e⟩ | ⟨-, -, e⟩ | ⟨u, hu, e⟩ <;> rw [e] at ht <;> cases ht
      exact hu
    · rcases Sched.resume_cases h (.group g) ret with ⟨-, -, e⟩ | ⟨-, r, -, e⟩ | ⟨u, hu, e⟩ <;> rw [e] at ht <;> cases ht
      exact hu
  · rcases Sched.acquire_cases h (.group g) 0 with ⟨hfull, -⟩ | ⟨hfull, -⟩ | ⟨t, -, e⟩
    · exact absurd hg (not_lt_of_ge hfull)
    · exact absurd hg (not_lt_of_ge hfull)
    · exact ⟨_, t, e⟩

/-- Of three targets with a load each, `acquire` takes the one of three slots. -/
theorem acquire_balanced_three : ∃ s, Reaches Step always threeTargets s ∧ (∀ t, (s.sched.target t).curLoad = 1) ∧
    ∃ s', CommSchedGroup.acquire s.sched () 0 = (s', .got 2) ∧ ∀ u, (s.sched.target u).group = some () →
      ((s.sched.target 2).curLoad : ℚ) / (s.sched.target 2).maxLoad ≤
        (s.sched.target u).curLoad / (s.sched.target u).maxLoad := by
  obtain ⟨s, run, -, -, -, loads, got⟩ := threeTargets_run
  have took : CommSchedGroup.acquire s.sched () 0 = ((CommSchedGroup.acquire s.sched () 0).1, .got 2) := by
    rw [← got]
  exact ⟨s, run, loads, _, took, ((acquire_balanced threeTargets_init run).2.1 () _ 2 (.inl ⟨0, took⟩)).2.2.2⟩

end

end Tinywf
