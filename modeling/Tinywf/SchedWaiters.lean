import Tinywf.SchedThreads
import Mathlib.Data.Fintype.BigOperators
import Mathlib.Tactic.FinCases
/-!
# SchedWaiters — who waits while there is room

A waiter that is signalled is on its way to a slot; what a group's waiters may count on are the slots not promised to
a woken waiter of a target (`spare`).  `Sys.Served` is what holds while no wake-up is missing: no more free slots than
woken waiters where a thread still waits.  Every step keeps it of a target.  Of a group, every step keeps it but three,
and those in the states that `Sys.Answered` leaves out: an `add` that brings more than the one slot its one signal is for,
a `release` that signals a target with no waiter left to wake, and a woken waiter that takes a slot promised to another.
-/
namespace Tinywf

open BinHeap Lts

variable {τ γ θ : Type}

/-! ## Counting threads -/

section
variable [Fintype θ] [DecidableEq θ]

/-- How many threads are where `p` says. -/
def threads (p : Thread τ γ → Bool) (f : θ → Thread τ γ) : Nat := ∑ a, (p (f a)).toNat

theorem threads_update (p : Thread τ γ → Bool) (f : θ → Thread τ γ) (a : θ) (x : Thread τ γ) :
    threads p (Function.update f a x) + (p (f a)).toNat = threads p f + (p x).toNat := by
  unfold threads
  have h1 := Finset.add_sum_erase Finset.univ (fun b => (p (f b)).toNat) (Finset.mem_univ a)
  have h2 := Finset.add_sum_erase Finset.univ (fun b => (p (Function.update f a x b)).toNat) (Finset.mem_univ a)
  have h3 : ∑ b ∈ Finset.univ.erase a, (p (Function.update f a x b)).toNat =
      ∑ b ∈ Finset.univ.erase a, (p (f b)).toNat :=
    Finset.sum_congr rfl fun b hb => by rw [Function.update_of_ne (Finset.ne_of_mem_erase hb)]
  simp only [Function.update_self] at h2
  omega

omit [DecidableEq θ] in
theorem threads_pos {p : Thread τ γ → Bool} {f : θ → Thread τ γ} : 0 < threads p f ↔ ∃ a, p (f a) = true := by
  unfold threads
  rw [Finset.sum_pos_iff]
  constructor
  · rintro ⟨a, -, ha⟩
    exact ⟨a, by cases h : p (f a) <;> simp_all⟩
  · rintro ⟨a, ha⟩
    exact ⟨a, Finset.mem_univ a, by rw [ha]; decide⟩

variable [DecidableEq τ] [DecidableEq γ]

def Thread.waitsOn (o : CommSchedObject τ γ) : Thread τ γ → Bool
  | .waiting o' _ => o' = o
  | _ => false

def Thread.wokenOn (o : CommSchedObject τ γ) : Thread τ γ → Bool
  | .woken o' _ _ => o' = o
  | _ => false

/-- Threads in `pthread_cond_wait` on an object's condition. -/
def blocked (f : θ → Thread τ γ) (o : CommSchedObject τ γ) : Nat := threads (Thread.waitsOn o) f

/-- Threads back from it that have not looked yet. -/
def woken (f : θ → Thread τ γ) (o : CommSchedObject τ γ) : Nat := threads (Thread.wokenOn o) f

variable {f f' : θ → Thread τ γ} {a : θ} {o o' : CommSchedObject τ γ} {timed : Bool} {ret : Option Errno}

theorem counts_update (f : θ → Thread τ γ) (a : θ) (x : Thread τ γ) (o : CommSchedObject τ γ) :
    blocked (Function.update f a x) o + ((f a).waitsOn o).toNat = blocked f o + (x.waitsOn o).toNat ∧
    woken (Function.update f a x) o + ((f a).wokenOn o).toNat = woken f o + (x.wokenOn o).toNat :=
  ⟨threads_update _ f a x, threads_update _ f a x⟩

theorem counts_running (h : f a = .running) (o : CommSchedObject τ γ) :
    blocked (Function.update f a .running) o = blocked f o ∧
    woken (Function.update f a .running) o = woken f o := by
  rw [← h, Function.update_eq_self]
  exact ⟨rfl, rfl⟩

theorem counts_waits (h : f a = .running) (o' : CommSchedObject τ γ) (timed : Bool) (o : CommSchedObject τ γ) :
    blocked (Function.update f a (.waiting o' timed)) o = blocked f o + (if o' = o then 1 else 0) ∧
    woken (Function.update f a (.waiting o' timed)) o = woken f o := by
  obtain ⟨h1, h2⟩ := counts_update f a (.waiting o' timed) o
  rw [h] at h1 h2
  by_cases e : o' = o <;> simp [Thread.waitsOn, Thread.wokenOn, e] at h1 h2 ⊢ <;> omega

theorem counts_back (h : f a = .woken o' timed ret) (o : CommSchedObject τ γ) :
    blocked (Function.update f a .running) o = blocked f o ∧
    woken (Function.update f a .running) o + (if o' = o then 1 else 0) = woken f o := by
  obtain ⟨h1, h2⟩ := counts_update f a .running o
  rw [h] at h1 h2
  by_cases e : o' = o <;> simp [Thread.waitsOn, Thread.wokenOn, e] at h1 h2 ⊢ <;> omega

theorem counts_again (h : f a = .woken o' timed ret) (o : CommSchedObject τ γ) :
    blocked (Function.update f a (.waiting o' timed)) o = blocked f o + (if o' = o then 1 else 0) ∧
    woken (Function.update f a (.waiting o' timed)) o + (if o' = o then 1 else 0) = woken f o := by
  obtain ⟨h1, h2⟩ := counts_update f a (.waiting o' timed) o
  rw [h] at h1 h2
  by_cases e : o' = o <;> simp [Thread.waitsOn, Thread.wokenOn, e] at h1 h2 ⊢ <;> omega

theorem counts_woken (h : f a = .waiting o' timed) (ret : Option Errno) (o : CommSchedObject τ γ) :
    blocked (Function.update f a (.woken o' timed ret)) o + (if o' = o then 1 else 0) = blocked f o ∧
    woken (Function.update f a (.woken o' timed ret)) o = woken f o + (if o' = o then 1 else 0) := by
  obtain ⟨h1, h2⟩ := counts_update f a (.woken o' timed ret) o
  rw [h] at h1 h2
  by_cases e : o' = o <;> simp [Thread.waitsOn, Thread.wokenOn, e] at h1 h2 ⊢ <;> omega

omit [DecidableEq θ] in
theorem blocked_pos (h : f a = .waiting o timed) : 0 < blocked f o :=
  threads_pos.2 ⟨a, by rw [h]; simp [Thread.waitsOn]⟩

/-- **A signal turns one waiter of its condition into a woken one, if there is one.** -/
theorem Signalled.counts {c : Option (CommSchedObject τ γ)} (h : Signalled c f f') (o : CommSchedObject τ γ) :
    ∃ n, n = (if c = some o then min 1 (blocked f o) else 0) ∧ blocked f' o + n = blocked f o ∧
      woken f' o = woken f o + n := by
  refine ⟨_, rfl, ?_⟩
  cases h with
  | none => simp
  | @wakes o' f a timed waits =>
    have h1 := blocked_pos waits
    obtain ⟨h2, h3⟩ := counts_woken waits .none o
    simp only [Option.some.injEq]
    by_cases e : o' = o
    · subst e
      simp only [if_true] at h2 h3 ⊢
      omega
    · simp only [e, if_false] at h2 h3 ⊢
      omega
  | @nobody o' f idle =>
    simp only [Option.some.injEq]
    by_cases e : o' = o
    · subst e
      have : blocked f o' = 0 := by
        by_contra hne
        obtain ⟨a, ha⟩ := threads_pos.1 (Nat.pos_of_ne_zero hne)
        cases hf : f a with
        | running => simp [hf, Thread.waitsOn] at ha
        | waiting o timed =>
          simp [hf, Thread.waitsOn] at ha
          exact idle a timed (ha ▸ hf)
        | woken o timed ret => simp [hf, Thread.waitsOn] at ha
      simp [this]
    · simp [e]

/-! ## Room -/

namespace Sched

/-- The members of a group, as its heap has them. -/
def members (s : Sched τ γ) (g : γ) : Finset τ := elems (s.group g).heapSize (s.slots g)

/-- The slots of a target that are not taken. -/
def free (s : Sched τ γ) (t : τ) : Nat := (s.target t).maxLoad - (s.target t).curLoad

omit [DecidableEq γ] in
theorem Ok.mem_members {s : Sched τ γ} (h : s.Ok) (g : γ) (t : τ) :
    t ∈ s.members g ↔ (s.target t).group = some g := by
  obtain ⟨E, ok⟩ := h.groups g
  rw [members, ok.holds.elems_eq, ok.mem_iff]

omit [DecidableEq γ] in
/-- The members' free slots are the group's room. -/
theorem Ok.free_sum {s : Sched τ γ} (h : s.Ok) (g : γ) :
    ∑ t ∈ s.members g, s.free t + (s.group g).curLoad = (s.group g).maxLoad := by
  obtain ⟨E, ok⟩ := h.groups g
  rw [members, ok.holds.elems_eq, ok.curLoad_eq, ok.maxLoad_eq, ← Finset.sum_add_distrib]
  apply Finset.sum_congr rfl
  intro t _
  have := h.le t
  unfold free
  omega

end Sched

namespace Sys

/-- The free slots of a group's members that no woken waiter of the member is on its way to. -/
def spare (s : Sys τ γ θ) (g : γ) : Nat := ∑ t ∈ s.sched.members g, (s.sched.free t - woken s.thread (.target t))

/-- No wake-up is missing: where threads still wait, no more slots are free than woken waiters are on their way to. -/
structure Served (s : Sys τ γ θ) : Prop where
  waitCnt : ∀ o, s.sched.waitCnt o = blocked s.thread o + woken s.thread o
  target : ∀ t, blocked s.thread (.target t) = 0 ∨ s.sched.free t ≤ woken s.thread (.target t)
  group : ∀ g, blocked s.thread (.group g) = 0 ∨ s.spare g ≤ woken s.thread (.group g)

/-- The states in which the one signal of a step is signal enough. -/
def Answered (s : Sys τ γ θ) : Action τ γ θ → Prop
  | .acquire .. => True
  | .timeout _ => True
  | .remove .. => True
  -- the slot the woken thread is about to take is one no woken waiter of the target is on its way to
  | .resume a => ∀ g timed ret, s.thread a = .woken (.group g) timed ret →
      (s.sched.group g).curLoad < (s.sched.group g).maxLoad → blocked s.thread (.group g) = 0 ∨
      woken s.thread (.target ((s.sched.group g).tgHeap 0)) < s.sched.free ((s.sched.group g).tgHeap 0) ∨
      s.spare g < woken s.thread (.group g)
  -- the target's waiters counted in `wait_cnt` are not all woken already
  | .release _ t _ => ∀ g, (s.sched.target t).group = some g → 0 < (s.sched.target t).waitCnt →
      0 < blocked s.thread (.target t) ∨ blocked s.thread (.group g) = 0 ∨
      s.sched.free t < woken s.thread (.target t) ∨ s.spare g < woken s.thread (.group g)
  -- one waiter at most, or one slot at most, unless the heap cannot grow
  | .add _ g t grown => (s.sched.target t).group = none → (s.sched.target t).waitCnt = 0 →
      (s.sched.group g).heapSize ≠ (s.sched.group g).heapBufSize ∨ grown = true →
      blocked s.thread (.group g) ≤ 1 ∨ s.spare g + s.sched.free t ≤ woken s.thread (.group g) + 1

/-! ### How the room of a group changes -/

variable {s s' : Sys τ γ θ} {g : γ} {t : τ}

omit [DecidableEq θ] in
theorem spare_le (h : s.Ok) (h' : s'.Ok)
    (members : ∀ u, (s'.sched.target u).group = some g → (s.sched.target u).group = some g)
    (term : ∀ u, (s.sched.target u).group = some g →
      s'.sched.free u - woken s'.thread (.target u) ≤ s.sched.free u - woken s.thread (.target u)) :
    s'.spare g ≤ s.spare g := by
  unfold spare
  calc ∑ u ∈ s'.sched.members g, (s'.sched.free u - woken s'.thread (.target u))
      ≤ ∑ u ∈ s'.sched.members g, (s.sched.free u - woken s.thread (.target u)) := by
        apply Finset.sum_le_sum
        intro u hu
        exact term u (members u ((h'.sched.mem_members g u).1 hu))
    _ ≤ ∑ u ∈ s.sched.members g, (s.sched.free u - woken s.thread (.target u)) := by
        apply Finset.sum_le_sum_of_subset
        intro u hu
        exact (h.sched.mem_members g u).2 (members u ((h'.sched.mem_members g u).1 hu))

omit [DecidableEq θ] in
/-- One member's part changes. -/
theorem spare_add (h : s.Ok) (h' : s'.Ok)
    (members : ∀ u, (s'.sched.target u).group = some g ↔ (s.sched.target u).group = some g)
    (ht : (s.sched.target t).group = some g) (term : ∀ u ≠ t, (s.sched.target u).group = some g →
      s'.sched.free u - woken s'.thread (.target u) = s.sched.free u - woken s.thread (.target u)) :
    s'.spare g + (s.sched.free t - woken s.thread (.target t)) =
      s.spare g + (s'.sched.free t - woken s'.thread (.target t)) := by
  have same : s'.sched.members g = s.sched.members g := by
    ext u
    rw [h.sched.mem_members, h'.sched.mem_members, members]
  have hmem : t ∈ s.sched.members g := (h.sched.mem_members g t).2 ht
  unfold spare
  rw [same, ← Finset.add_sum_erase _ _ hmem, ← Finset.add_sum_erase (s.sched.members g) _ hmem]
  have rest : ∑ u ∈ (s.sched.members g).erase t, (s'.sched.free u - woken s'.thread (.target u)) =
      ∑ u ∈ (s.sched.members g).erase t, (s.sched.free u - woken s.thread (.target u)) := by
    apply Finset.sum_congr rfl
    intro u hu
    exact term u (Finset.ne_of_mem_erase hu) ((h.sched.mem_members g u).1 (Finset.mem_of_mem_erase hu))
  rw [rest]
  omega

omit [DecidableEq θ] in
theorem spare_full (h : s.Ok) (full : (s.sched.group g).maxLoad ≤ (s.sched.group g).curLoad) : s.spare g = 0 := by
  have := h.sched.free_sum g
  have hle : s.spare g ≤ ∑ t ∈ s.sched.members g, s.sched.free t := Finset.sum_le_sum fun t _ => Nat.sub_le _ _
  omega

end Sys

/-! ## What the sections do to the counts -/

namespace Sched

variable {s : Sched τ γ}

theorem setWaitCnt_waitCnt (s : Sched τ γ) (n : Nat) (o o' : CommSchedObject τ γ) :
    (s.setWaitCnt n o).waitCnt o' = if o' = o then n else s.waitCnt o' := by
  cases o <;> cases o' <;> simp [setWaitCnt, waitCnt] <;> split <;> rfl

theorem setWaitCnt_free (s : Sched τ γ) (n : Nat) (o : CommSchedObject τ γ) (t : τ) :
    (s.setWaitCnt n o).free t = s.free t := by
  rw [free, setWaitCnt_target]
  rfl

theorem setWaitCnt_member (s : Sched τ γ) (n : Nat) (o : CommSchedObject τ γ) (t : τ) :
    ((s.setWaitCnt n o).target t).group = (s.target t).group := by
  rw [setWaitCnt_target]

theorem takeTarget_counts (s : Sched τ γ) (t : τ) (o : CommSchedObject τ γ) : (s.takeTarget t).waitCnt o = s.waitCnt o := by
  cases o with
  | target u =>
    rw [waitCnt, takeTarget_target]
    rfl
  | group g => exact takeTarget_waitCnt s t g

theorem takeTarget_free (s : Sched τ γ) (t u : τ) :
    (s.takeTarget t).free u = if u = t then s.free t - 1 else s.free u := by
  rw [free, takeTarget_target]
  simp only
  split
  · rename_i e
    rw [e, free, Nat.sub_sub]
  · rfl

theorem takeTarget_member (s : Sched τ γ) (t u : τ) : ((s.takeTarget t).target u).group = (s.target u).group := by
  rw [takeTarget_target]

theorem release_counts (s : Sched τ γ) (t : τ) (k : Int) (o : CommSchedObject τ γ) :
    (s.release t k).1.waitCnt o = s.waitCnt o := by
  cases o with
  | target u =>
    rw [waitCnt, release_target]
    rfl
  | group g => exact release_waitCnt s t k g

theorem release_free (h : s.Ok) {t : τ} (ht : 0 < (s.target t).curLoad) (k : Int) (u : τ) :
    (s.release t k).1.free u = if u = t then s.free t + 1 else s.free u := by
  have := h.le t
  rw [free, release_target]
  simp only
  split
  · rename_i e
    rw [e, free]
    omega
  · rfl

theorem release_member (s : Sched τ γ) (t : τ) (k : Int) (u : τ) :
    ((s.release t k).1.target u).group = (s.target u).group := by
  rw [release_target]

/-- What `release` signals: the target's waiters, or the group's when the target has none. -/
theorem release_signal (s : Sched τ γ) (t : τ) (k : Int) :
    (0 < (s.target t).waitCnt ∧ (s.release t k).2 = some (.target t)) ∨
    ((s.target t).waitCnt = 0 ∧ ∃ g, (s.target t).group = some g ∧ 0 < (s.group g).waitCnt ∧
      (s.release t k).2 = some (.group g)) ∨
    ((s.target t).waitCnt = 0 ∧ (∀ g, (s.target t).group = some g → (s.group g).waitCnt = 0) ∧
      (s.release t k).2 = none) := by
  unfold release
  simp only
  by_cases h0 : (s.target t).waitCnt = 0
  · right
    split
    · rename_i g hg
      by_cases hw : 0 < (s.group g).waitCnt
      · exact .inl ⟨h0, g, hg, hw, by simp [h0, hw]⟩
      · refine .inr ⟨h0, fun g' hg' => ?_, by simp [h0, hw]⟩
        rw [hg] at hg'
        cases hg'
        omega
    · rename_i hg
      refine .inr ⟨h0, fun g' hg' => ?_, by simp [h0]⟩
      rw [hg] at hg'
      cases hg'
  · left
    refine ⟨by omega, ?_⟩
    split <;> simp [h0, Nat.pos_of_ne_zero h0]

theorem joined_keeps (h : s.Ok) {g : γ} {t : τ} {grown : Bool} {s1 : Sched τ γ} (ht : (s.target t).group = none)
    (hs : s.heapInsert g t grown = some s1) (o : CommSchedObject τ γ) (u : τ) :
    (s1.joined g t).waitCnt o = s.waitCnt o ∧ (s1.joined g t).free u = s.free u ∧
      ((s1.joined g t).target u).group = if u = t then some g else (s.target u).group := by
  obtain ⟨E, ok⟩ := h.groups g
  have hr := heapInsert_spec ok h.toBounded (by rw [ok.mem_iff, ht]; simp) hs
  refine ⟨?_, ?_, ?_⟩
  · cases o with
    | target u =>
      rw [waitCnt, joined_target, hr.target u]
      rfl
    | group g' =>
      show ((s1.joined g t).group g').waitCnt = (s.group g').waitCnt
      by_cases hg : g' = g
      · rw [hg, joined_group]
        exact hr.waitCnt
      · rw [joined, setGroup_group, if_neg hg, setTarget_group, hr.others g' hg]
  · unfold free
    rw [joined_target, hr.target u]
  · rw [joined_target, hr.target u]

theorem left_keeps (h : s.Ok) {g : γ} {t : τ} (ht : (s.target t).group = some g) (o : CommSchedObject τ γ) (u : τ) :
    ((s.heapRemove g (s.target t).index).left g t).waitCnt o = s.waitCnt o ∧
      ((s.heapRemove g (s.target t).index).left g t).free u = s.free u ∧
      (((s.heapRemove g (s.target t).index).left g t).target u).group =
        if u = t then none else (s.target u).group := by
  obtain ⟨E, ok⟩ := h.groups g
  have hr := heapRemove_spec ok h.toBounded ((ok.mem_iff t).2 ht)
  refine ⟨?_, ?_, ?_⟩
  · cases o with
    | target u =>
      rw [waitCnt, left_target, hr.target u]
      rfl
    | group g' =>
      show (((s.heapRemove g (s.target t).index).left g t).group g').waitCnt = (s.group g').waitCnt
      by_cases hg : g' = g
      · rw [hg, left_group]
        exact hr.waitCnt
      · rw [left, setTarget_group, setGroup_group, if_neg hg, hr.others g' hg]
  · unfold free
    rw [left_target, hr.target u]
  · rw [left_target, hr.target u]

end Sched

namespace Sys

variable {s s' : Sys τ γ θ}

/-! ## Every step that is answered keeps what holds -/

omit [DecidableEq θ] in
/-- Nobody took a load, and the object a thread came to was full. -/
theorem Served.full (hv : s.Served) (h : s.Ok) (h' : s'.Ok) (o : CommSchedObject τ γ)
    (full : s.sched.maxLoad o ≤ s.sched.curLoad o)
    (waitCnt : ∀ o, s'.sched.waitCnt o = blocked s'.thread o + woken s'.thread o)
    (free : ∀ t, s'.sched.free t = s.sched.free t)
    (member : ∀ t, (s'.sched.target t).group = (s.sched.target t).group)
    (others : ∀ o' ≠ o, blocked s'.thread o' = blocked s.thread o' ∧ woken s'.thread o' = woken s.thread o') :
    s'.Served := by
  have empty : ∀ t, o = .target t → s.sched.free t = 0 := by
    intro t e
    rw [e] at full
    exact Nat.sub_eq_zero_of_le full
  refine ⟨waitCnt, fun t => ?_, fun g => ?_⟩
  · by_cases e : o = .target t
    · right
      rw [free, empty t e]
      exact Nat.zero_le _
    · obtain ⟨h1, h2⟩ := others (.target t) (Ne.symm e)
      rw [h1, h2, free]
      exact hv.target t
  · have less : s'.spare g ≤ s.spare g := by
      refine spare_le h h' (fun u hu => by rwa [member] at hu) fun u _ => ?_
      rw [free]
      by_cases e : o = .target u
      · rw [empty u e]
        omega
      · rw [(others (.target u) (Ne.symm e)).2]
    by_cases e : o = .group g
    · right
      rw [e] at full
      have := spare_full h full
      omega
    · obtain ⟨h1, h2⟩ := others (.group g) (Ne.symm e)
      rw [h1, h2]
      rcases hv.group g with h0 | hle
      · exact .inl h0
      · exact .inr (by omega)

omit [DecidableEq θ] in
/-- A thread took a load: one that came to the object, or (`back`) one that was woken. -/
theorem Served.taken (hv : s.Served) (h : s.Ok) (h' : s'.Ok) {o : CommSchedObject τ γ} {t : τ} (ht : s.sched.Takes o t)
    (back : Nat) (waitCnt : ∀ o, s'.sched.waitCnt o = blocked s'.thread o + woken s'.thread o)
    (free : ∀ u, s'.sched.free u = if u = t then s.sched.free t - 1 else s.sched.free u)
    (member : ∀ t, (s'.sched.target t).group = (s.sched.target t).group)
    (stay : ∀ o', blocked s'.thread o' = blocked s.thread o')
    (went : ∀ o', woken s'.thread o' + (if o = o' then back else 0) = woken s.thread o') (one : back ≤ 1)
    (ready : ∀ g, o = .group g → back = 1 → blocked s.thread (.group g) = 0 ∨
      woken s.thread (.target t) < s.sched.free t ∨ s.spare g < woken s.thread (.group g)) : s'.Served := by
  have pos : 0 < s.sched.free t := Nat.sub_pos_of_lt ht.fits
  refine ⟨waitCnt, fun u => ?_, fun g => ?_⟩
  · rw [stay, free]
    have hw := went (.target u)
    rcases hv.target u with h0 | hle
    · exact .inl h0
    · right
      by_cases hu : u = t
      · rw [if_pos hu]
        subst hu
        split at hw <;> omega
      · rw [if_neg hu]
        have : o ≠ .target u := fun e => hu (ht.own u e).symm
        rw [if_neg this] at hw
        omega
  · have term : ∀ u, s'.sched.free u - woken s'.thread (.target u) ≤ s.sched.free u - woken s.thread (.target u) := by
      intro u
      have hw := went (.target u)
      rw [free]
      by_cases hu : u = t
      · rw [if_pos hu]
        subst hu
        split at hw <;> omega
      · rw [if_neg hu]
        have : o ≠ .target u := fun e => hu (ht.own u e).symm
        rw [if_neg this] at hw
        omega
    have less : s'.spare g ≤ s.spare g := spare_le h h' (fun u hu => by rwa [member] at hu) fun u _ => term u
    have hw := went (.group g)
    rw [stay]
    rcases hv.group g with h0 | hle
    · exact .inl h0
    by_cases e : o = .group g
    · rw [if_pos e] at hw
      by_cases hb : back = 1
      · rcases ready g e hb with h0 | hlt | hlt
        · exact .inl h0
        · right
          have ht' := (ht.root g e).2
          have := spare_add h h' (fun u => by rw [member]) ht' fun u hu _ => by
            have hw' := went (.target u)
            have : o ≠ .target u := fun e => hu (ht.own u e).symm
            rw [if_neg this] at hw'
            rw [free, if_neg hu]
            omega
          have hwt := went (.target t)
          rw [e] at hwt
          simp only [reduceCtorEq, if_false] at hwt
          rw [free, if_pos rfl] at this
          omega
        · exact .inr (by omega)
      · exact .inr (by omega)
    · rw [if_neg e] at hw
      exact .inr (by omega)

omit [DecidableEq θ] in
/-- Nothing but signals and what only shrinks the room: no slot is freed, and no member comes. -/
theorem Served.shrinks (hv : s.Served) (h : s.Ok) (h' : s'.Ok)
    (waitCnt : ∀ o, s'.sched.waitCnt o = blocked s'.thread o + woken s'.thread o)
    (free : ∀ t, s'.sched.free t = s.sched.free t)
    (member : ∀ t g, (s'.sched.target t).group = some g → (s.sched.target t).group = some g)
    (stay : ∀ o, blocked s'.thread o ≤ blocked s.thread o) (went : ∀ o, woken s.thread o ≤ woken s'.thread o) :
    s'.Served := by
  refine ⟨waitCnt, fun t => ?_, fun g => ?_⟩
  · have h1 := stay (.target t)
    have h2 := went (.target t)
    rw [free]
    rcases hv.target t with h0 | hle
    · exact .inl (by omega)
    · exact .inr (by omega)
  · have h1 := stay (.group g)
    have h2 := went (.group g)
    have less : s'.spare g ≤ s.spare g := spare_le h h' (fun u hu => member u g hu) fun u _ => by
      have := went (.target u)
      rw [free]
      omega
    rcases hv.group g with h0 | hle
    · exact .inl (by omega)
    · exact .inr (by omega)

theorem served_acquire (hv : s.Served) (h : s.Ok) {a : θ} {o : CommSchedObject τ γ} {w : Int}
    (runs : s.thread a = .running) (h' : (s.settle a o (0 < w) (s.sched.acquire o w)).Ok) :
    (s.settle a o (0 < w) (s.sched.acquire o w)).Served := by
  rcases Sched.acquire_cases h.sched o w with ⟨full, -, e⟩ | ⟨-, -, e⟩ | ⟨t, ht, e⟩ <;> rw [e] at h' ⊢
  · have counts := counts_waits runs o (decide (0 < w))
    refine hv.full h h' o full (fun o' => ?_) (Sched.setWaitCnt_free _ _ o) (Sched.setWaitCnt_member _ _ o)
      (fun o' hne => ?_)
    · have hc := counts o'
      have := hv.waitCnt o'
      rw [settle_wait_thread, hc.1, hc.2]
      show (s.sched.setWaitCnt _ o).waitCnt o' = _
      rw [Sched.setWaitCnt_waitCnt]
      by_cases e' : o' = o
      · rw [if_pos e', if_pos e'.symm, ← e']
        omega
      · rw [if_neg e', if_neg (Ne.symm e')]
        omega
    · have hc := counts o'
      rw [if_neg (Ne.symm hne)] at hc
      exact hc
  · have same : s.settle a o (0 < w) (s.sched, .fail .EAGAIN) = s := by
      show { s with sched := s.sched, thread := Function.update s.thread a .running } = s
      rw [← runs, Function.update_eq_self]
    rw [same]
    exact hv
  · refine hv.taken h h' ht 0 (fun o' => ?_) (Sched.takeTarget_free _ t) (Sched.takeTarget_member _ t)
      (fun o' => (counts_running runs o').1) (fun o' => ?_) (by omega) (fun g _ h0 => by omega)
    · rw [settle_got_thread, (counts_running runs o').1, (counts_running runs o').2]
      show (s.sched.takeTarget t).waitCnt o' = _
      rw [Sched.takeTarget_counts]
      exact hv.waitCnt o'
    · rw [ite_self, Nat.add_zero]
      exact (counts_running runs o').2

theorem served_resume (hv : s.Served) (h : s.Ok) {a : θ} {o : CommSchedObject τ γ} {timed : Bool} {ret : Option Errno}
    (back : s.thread a = .woken o timed ret) (ha : s.Answered (.resume a))
    (h' : (s.settle a o timed (s.sched.resume o ret)).Ok) : (s.settle a o timed (s.sched.resume o ret)).Served := by
  have pos : 0 < woken s.thread o := threads_pos.2 ⟨a, by rw [back]; simp [Thread.wokenOn]⟩
  have hcnt := hv.waitCnt o
  have gone := counts_back back
  rcases Sched.resume_cases h.sched o ret with ⟨full, -, e⟩ | ⟨full, r, -, e⟩ | ⟨t, ht, e⟩ <;> rw [e] at h' ⊢
  · have counts := counts_again back
    refine hv.full h h' o full (fun o' => ?_) (fun t => ?_) (fun t => ?_) (fun o' hne => ?_)
    · have hc := counts o'
      have := hv.waitCnt o'
      rw [settle_wait_thread]
      show ((s.sched.setWaitCnt _ o).setWaitCnt _ o).waitCnt o' = _
      rw [Sched.setWaitCnt_waitCnt, Sched.setWaitCnt_waitCnt]
      by_cases e' : o' = o
      · subst e'
        simp only [if_true] at hc ⊢
        omega
      · simp only [e', Ne.symm e', if_false] at hc ⊢
        omega
    · exact (Sched.setWaitCnt_free _ _ o t).trans (Sched.setWaitCnt_free _ _ o t)
    · exact (Sched.setWaitCnt_member _ _ o t).trans (Sched.setWaitCnt_member _ _ o t)
    · have hc := counts o'
      simp only [Ne.symm hne, if_false] at hc
      exact hc
  · refine hv.full h h' o full (fun o' => ?_) (Sched.setWaitCnt_free _ _ o) (Sched.setWaitCnt_member _ _ o)
      (fun o' hne => ?_)
    · have hc := gone o'
      have := hv.waitCnt o'
      rw [settle_fail_thread]
      show (s.sched.setWaitCnt _ o).waitCnt o' = _
      rw [Sched.setWaitCnt_waitCnt]
      by_cases e' : o' = o
      · subst e'
        simp only [if_true] at hc ⊢
        omega
      · simp only [e', Ne.symm e', if_false] at hc ⊢
        omega
    · have hc := gone o'
      simp only [Ne.symm hne, if_false] at hc
      exact hc
  · refine hv.taken h h' ht 1 (fun o' => ?_) (fun u => ?_) (fun u => ?_) (fun o' => (gone o').1) (fun o' => (gone o').2)
      (by omega) (fun g hg _ => ?_)
    · have hc := gone o'
      have := hv.waitCnt o'
      rw [settle_got_thread]
      show ((s.sched.setWaitCnt _ o).takeTarget t).waitCnt o' = _
      rw [Sched.takeTarget_counts, Sched.setWaitCnt_waitCnt]
      by_cases e' : o' = o
      · subst e'
        simp only [if_true] at hc ⊢
        omega
      · simp only [e', Ne.symm e', if_false] at hc ⊢
        omega
    · show ((s.sched.setWaitCnt _ o).takeTarget t).free u = _
      rw [Sched.takeTarget_free, Sched.setWaitCnt_free, Sched.setWaitCnt_free]
    · show (((s.sched.setWaitCnt _ o).takeTarget t).target u).group = _
      rw [Sched.takeTarget_member, Sched.setWaitCnt_member]
    · subst hg
      have := ha g timed ret back ht.room
      rwa [← (ht.root g rfl).1] at this

theorem served_release (hv : s.Served) (h : s.Ok) {t : τ} {k : Int} {f : θ → Thread τ γ} {n : τ → Nat} (ht : 0 < s.held t)
    (signal : Signalled (s.sched.release t k).2 s.thread f)
    (ha : ∀ g, (s.sched.target t).group = some g → 0 < (s.sched.target t).waitCnt →
      0 < blocked s.thread (.target t) ∨ blocked s.thread (.group g) = 0 ∨
      s.sched.free t < woken s.thread (.target t) ∨ s.spare g < woken s.thread (.group g))
    (h' : Ok { sched := (s.sched.release t k).1, thread := f, held := n }) :
    Served { sched := (s.sched.release t k).1, thread := f, held := n } := by
  rw [h.held] at ht
  have hfree := Sched.release_free h.sched ht k
  have hmem := Sched.release_member s.sched t k
  have hsig := Sched.release_signal s.sched t k
  have hcnt : (s.sched.target t).waitCnt = blocked s.thread (.target t) + woken s.thread (.target t) :=
    hv.waitCnt (.target t)
  refine ⟨fun o => ?_, fun u => ?_, fun g => ?_⟩
  · obtain ⟨m, -, h1, h2⟩ := signal.counts o
    have := hv.waitCnt o
    simp only [Sched.release_counts]
    omega
  · obtain ⟨m, hm, h1, h2⟩ := signal.counts (.target u)
    simp only [hfree]
    rcases hv.target u with h0 | hle
    · exact .inl (by omega)
    by_cases hu : u = t
    · subst hu
      rw [if_pos rfl]
      rcases Nat.eq_zero_or_pos (blocked s.thread (.target u)) with hb | hb
      · exact .inl (by omega)
      · rcases hsig with ⟨-, e⟩ | ⟨h0, -⟩ | ⟨h0, -⟩
        · rw [e, if_pos rfl] at hm
          exact .inr (by omega)
        · omega
        · omega
    · rw [if_neg hu]
      exact .inr (by omega)
  · obtain ⟨m, hm, h1, h2⟩ := signal.counts (.group g)
    rcases hv.group g with h0 | hle
    · exact .inl (by simp only; omega)
    by_cases hg : (s.sched.target t).group = some g
    · obtain ⟨m', hm', h1', h2'⟩ := signal.counts (.target t)
      have others : ∀ u ≠ t, woken f (.target u) = woken s.thread (.target u) := by
        intro u hu
        obtain ⟨m'', hm'', -, h2''⟩ := signal.counts (.target u)
        have hne : ¬ (s.sched.release t k).2 = some (.target u) := by
          rcases hsig with ⟨-, e⟩ | ⟨-, g', -, -, e⟩ | ⟨-, -, e⟩ <;> rw [e] <;> simp [Ne.symm hu]
        rw [if_neg hne] at hm''
        omega
      have sum := spare_add h h' (fun u => by rw [hmem]) hg fun u hu _ => by
        simp only [hfree, if_neg hu, others u hu]
      simp only [hfree, if_true] at sum ⊢
      rcases hsig with ⟨hw, e⟩ | ⟨h0, g', hg', hw, e⟩ | ⟨h0, hw, e⟩
      · rw [e, if_pos rfl] at hm'
        rw [e, if_neg (by simp)] at hm
        rcases ha g hg hw with hb | hb | hb | hb
        · exact .inr (by omega)
        · exact .inl (by omega)
        · exact .inr (by omega)
        · exact .inr (by omega)
      · rw [hg] at hg'
        cases hg'
        rw [e, if_pos rfl] at hm
        rcases Nat.eq_zero_or_pos (blocked s.thread (.group g)) with hb | hb
        · exact .inl (by omega)
        · exact .inr (by omega)
      · have hcg : (s.sched.group g).waitCnt = blocked s.thread (.group g) + woken s.thread (.group g) :=
          hv.waitCnt (.group g)
        have := hw g hg
        exact .inl (by omega)
    · have less : spare { sched := (s.sched.release t k).1, thread := f, held := n } g ≤ s.spare g := by
        refine spare_le h h' (fun u hu => by rwa [hmem] at hu) fun u hu => ?_
        obtain ⟨m'', -, -, h2''⟩ := signal.counts (.target u)
        have hne : u ≠ t := fun e => hg (e ▸ hu)
        simp only [hfree, if_neg hne]
        omega
      exact .inr (by simp only; omega)

theorem served_add (hv : s.Served) (h : s.Ok) {g : γ} {t : τ} {grown : Bool} {f : θ → Thread τ γ}
    (signal : Signalled (s.sched.add g t grown).2.1 s.thread f)
    (ha : (s.sched.target t).group = none → (s.sched.target t).waitCnt = 0 →
      (s.sched.group g).heapSize ≠ (s.sched.group g).heapBufSize ∨ grown = true →
      blocked s.thread (.group g) ≤ 1 ∨ s.spare g + s.sched.free t ≤ woken s.thread (.group g) + 1)
    (h' : Ok { s with sched := (s.sched.add g t grown).1, thread := f }) :
    Served { s with sched := (s.sched.add g t grown).1, thread := f } := by
  rcases Sched.add_cases s.sched g t grown with ⟨s1, ht, h0, hs, e, esig⟩ | ⟨e, esig⟩
  · rw [esig] at signal
    rw [e] at h' ⊢
    have keeps := fun o u => Sched.joined_keeps h.sched ht hs o u
    have target : ∀ u, blocked f (.target u) = blocked s.thread (.target u) ∧
        woken f (.target u) = woken s.thread (.target u) := by
      intro u
      obtain ⟨m, hm, h1, h2⟩ := signal.counts (.target u)
      rw [if_neg (by split <;> simp)] at hm
      omega
    refine ⟨fun o => ?_, fun u => ?_, fun g' => ?_⟩
    · obtain ⟨m, -, h1, h2⟩ := signal.counts o
      have := hv.waitCnt o
      simp only [(keeps o t).1]
      omega
    · simp only [(keeps (.target u) u).2.1, (target u).1, (target u).2]
      exact hv.target u
    · obtain ⟨m, hm, h1, h2⟩ := signal.counts (.group g')
      simp only
      rcases hv.group g' with hb | hle
      · exact .inl (by omega)
      by_cases hg : g' = g
      · subst hg
        have hcg : (s.sched.group g').waitCnt = blocked s.thread (.group g') + woken s.thread (.group g') :=
          hv.waitCnt (.group g')
        have hcj : ((s1.joined g' t).group g').waitCnt = (s.sched.group g').waitCnt := (keeps (.group g') t).1
        by_cases hroom : ((s1.joined g' t).group g').curLoad < ((s1.joined g' t).group g').maxLoad
        · rcases Nat.eq_zero_or_pos (blocked s.thread (.group g')) with hb | hb
          · exact .inl (by omega)
          have hcond : 0 < ((s1.joined g' t).group g').waitCnt ∧
              ((s1.joined g' t).group g').curLoad < ((s1.joined g' t).group g').maxLoad := ⟨by omega, hroom⟩
          rw [if_pos hcond, if_pos rfl] at hm
          rcases ha ht h0 (Sched.room_of_heapInsert hs) with hone | hsum
          · exact .inl (by omega)
          · right
            have hmem : t ∉ s.sched.members g' := by
              rw [h.sched.mem_members, ht]
              simp
            have same : spare { s with sched := s1.joined g' t, thread := f } g' = s.spare g' + (s.sched.free t -
                woken s.thread (.target t)) := by
              have hset : (s1.joined g' t).members g' = insert t (s.sched.members g') := by
                ext u
                have := h'.sched.mem_members g' u
                simp only at this
                rw [this, (keeps (.group g') u).2.2, Finset.mem_insert, h.sched.mem_members]
                split
                · rename_i e'
                  simp [e']
                · rename_i e'
                  simp [e']
              unfold spare
              simp only [hset]
              rw [Finset.sum_insert hmem, Nat.add_comm]
              simp only [(keeps (.group g') _).2.1, (target _).2]
            omega
        · right
          have := spare_full h' (g := g') (by simp only; omega)
          omega
      · have less : spare { s with sched := s1.joined g t, thread := f } g' ≤ s.spare g' := by
          refine spare_le h h' (fun u hu => ?_) fun u _ => ?_
          · simp only [(keeps (.group g') u).2.2] at hu
            split at hu
            · cases hu
              exact absurd rfl hg
            · exact hu
          · simp only [(keeps (.group g') u).2.1, (target u).2]
            exact le_refl _
        exact .inr (by omega)
  · rw [esig] at signal
    cases signal
    rw [e]
    exact hv

omit [DecidableEq θ] in
theorem served_remove (hv : s.Served) (h : s.Ok) {g : γ} {t : τ} (h' : Ok { s with sched := (s.sched.remove g t).1 }) :
    Served { s with sched := (s.sched.remove g t).1 } := by
  rcases Sched.remove_cases s.sched g t with ⟨ht, -, e⟩ | e
  · rw [e] at h' ⊢
    have keeps := fun o u => Sched.left_keeps h.sched ht o u
    refine hv.shrinks h h' (fun o => ?_) (fun u => (keeps (.target u) u).2.1) (fun u g' hu => ?_) (fun _ => le_refl _)
      (fun _ => le_refl _)
    · simp only [(keeps o t).1]
      exact hv.waitCnt o
    · simp only [(keeps (.target u) u).2.2] at hu
      split at hu
      · cases hu
      · exact hu
  · rw [e]
    exact hv

end Sys

/-- **A step in a state where its signal is enough leaves no wake-up missing.** -/
theorem Step.served {s s' : Sys τ γ θ} {x : Action τ γ θ} (h : s.Ok) (hv : s.Served) (ha : s.Answered x)
    (step : Step s x s') : s'.Served := by
  have h' := step.ok h
  cases step with
  | acquire a o w runs => exact Sys.served_acquire hv h runs h'
  | resume a o timed ret back => exact Sys.served_resume hv h back ha h'
  | timeout a o waits =>
    have counts := counts_woken waits (some .ETIMEDOUT)
    refine hv.shrinks h h' (fun o' => ?_) (fun _ => rfl) (fun _ _ hu => hu) (fun o' => ?_) (fun o' => ?_)
    · have hc := counts o'
      have := hv.waitCnt o'
      simp only
      split at hc <;> omega
    · have hc := counts o'
      simp only
      split at hc <;> omega
    · have hc := counts o'
      simp only
      split at hc <;> omega
  | release a t k f runs held signal => exact Sys.served_release hv h held signal ha h'
  | add a g t grown f runs signal => exact Sys.served_add hv h signal ha h'
  | remove a g t runs => exact Sys.served_remove hv h h'

omit [DecidableEq θ] in
theorem init_served {s : Sys τ γ θ} (h : s.Init) : s.Served := by
  have none : ∀ o, blocked s.thread o = 0 ∧ woken s.thread o = 0 := by
    intro o
    constructor
    · by_contra hne
      obtain ⟨a, ha⟩ := threads_pos.1 (Nat.pos_of_ne_zero hne)
      simp [h.thread a, Thread.waitsOn] at ha
    · by_contra hne
      obtain ⟨a, ha⟩ := threads_pos.1 (Nat.pos_of_ne_zero hne)
      simp [h.thread a, Thread.wokenOn] at ha
  refine ⟨fun o => ?_, fun t => .inl (none _).1, fun g => .inl (none _).1⟩
  rw [(none o).1, (none o).2]
  cases o with
  | target t =>
    obtain ⟨n, i, -, e⟩ := h.target t
    rw [Sched.waitCnt, (init_target e).2]
  | group g =>
    obtain ⟨heap, e⟩ := h.group g
    rw [Sched.waitCnt, e]
    rfl

theorem reaches_served {s₀ s : Sys τ γ θ} (init : s₀.Init) (run : Reaches Step Sys.Answered s₀ s) : s.Served :=
  run.keeps_of (fun _ before => reaches_ok init before) (fun _ _ _ h hv ha step => step.served h hv ha)
    (init_served init)

/-- **No waiter is left behind while there is room**: in a state that a run of steps in answered states reaches, with no
thread on its way back from a wait, an object that a thread waits for has no room. -/
theorem waiters_full {s₀ s : Sys τ γ θ} (init : s₀.Init) (run : Reaches Step Sys.Answered s₀ s)
    (quiet : ∀ a o timed ret, s.thread a ≠ .woken o timed ret) {a : θ} {o : CommSchedObject τ γ} {timed : Bool}
    (waits : s.thread a = .waiting o timed) : s.sched.maxLoad o ≤ s.sched.curLoad o := by
  have h := (reaches_ok init run).sched
  have hv := reaches_served init run
  have hw : ∀ o, woken s.thread o = 0 := by
    intro o
    by_contra hne
    obtain ⟨b, hb⟩ := threads_pos.1 (Nat.pos_of_ne_zero hne)
    cases hf : s.thread b with
    | running => simp [hf, Thread.wokenOn] at hb
    | waiting o timed => simp [hf, Thread.wokenOn] at hb
    | woken o timed ret => exact quiet b o timed ret hf
  have hb := blocked_pos waits
  cases o with
  | target t =>
    have := hv.target t
    have := hw (.target t)
    show (s.sched.target t).maxLoad ≤ (s.sched.target t).curLoad
    unfold Sched.free at *
    omega
  | group g =>
    have := hv.group g
    have := hw (.group g)
    have sum := h.free_sum g
    have all : s.spare g = ∑ t ∈ s.sched.members g, s.sched.free t :=
      Finset.sum_congr rfl fun t _ => by rw [hw, Nat.sub_zero]
    show (s.sched.group g).maxLoad ≤ (s.sched.group g).curLoad
    omega

end

/-- One slot taken, the other too, and a third thread waits. -/
theorem waiters_full_third : ∃ s, Reaches Step Sys.Answered twoSlots s ∧ s.thread 2 = .waiting (.group ()) false ∧
    (s.sched.group ()).maxLoad ≤ (s.sched.group ()).curLoad := by
  have r0 : Reaches Step Sys.Answered twoSlots twoSlots := .start
  have r1 := r0.next (a := Action.add 0 () () true) (fun _ _ _ => Or.inl (by decide))
    (Step.add 0 () () true _ rfl (Signalled.none _))
  have r2 := r1.next (a := Action.acquire 0 (.group ()) (-1)) trivial (Step.acquire 0 _ _ rfl)
  have r3 := r2.next (a := Action.acquire 1 (.group ()) (-1)) trivial (Step.acquire 1 _ _ rfl)
  have r4 := r3.next (a := Action.acquire 2 (.group ()) (-1)) trivial (Step.acquire 2 _ _ rfl)
  refine ⟨_, r4, rfl, waiters_full twoSlots_init r4 ?_ (a := 2) (show _ = Thread.waiting (.group ()) false from rfl)⟩
  intro a o timed ret
  fin_cases a <;> intro h <;> cases h

/-- **Two threads wait, a target with two slots is added, and one of them stays behind.** -/
theorem waiter_left : ∃ s, Reaches Step always twoSlots s ∧ (∀ a o timed ret, s.thread a ≠ .woken o timed ret) ∧
    s.thread 1 = .waiting (.group ()) false ∧ (s.sched.group ()).curLoad < (s.sched.group ()).maxLoad := by
  have r0 : Reaches Step always twoSlots twoSlots := .start
  have r1 := r0.next (a := Action.acquire 0 (.group ()) (-1)) trivial (Step.acquire 0 _ _ rfl)
  have r2 := r1.next (a := Action.acquire 1 (.group ()) (-1)) trivial (Step.acquire 1 _ _ rfl)
  have r3 := r2.next trivial (Step.add 2 () () true _ rfl (Signalled.wakes 0 false rfl))
  have r4 := r3.next trivial (Step.resume 0 (.group ()) false none rfl)
  refine ⟨_, r4, ?_, rfl, by decide⟩
  intro a o timed ret
  fin_cases a <;> intro h <;> cases h

end Tinywf
