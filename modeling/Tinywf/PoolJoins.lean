import Tinywf.ThrdPool
/-!
# PoolJoins — the threads of a pool between two steps

What holds between two steps: who may be in a call (`Calling`), what the flags say (`Flags`), which threads `nthreads`
counts (`Counts`) and who joins whom (`Linked`).  A thread that exits joins the one that exited before it, and
`thrdpool_destroy` the last; nobody exits any more once it has seen `nthreads` at zero.

All of this rests on `nthreads` counting the threads that run tasks.  A thread that `thrdpool_increase` creates may run
one before it is counted; if nobody else is, it takes the pool for destroyed and frees it.
-/
namespace Tinywf

open Lts ThrdPool

variable {θ : Type}

/-! ## Places -/

namespace PoolWork

/-- A thread there may be in a call. -/
def calls : PoolWork θ → Bool
  | outside => true
  | running _ => true
  | _ => false

/-- A thread there will lower `nthreads`, or has destroyed the pool. -/
def active : PoolWork θ → Bool
  | loop => true
  | getting => true
  | running _ => true
  | returned => true
  | exitLock => true
  | _ => false

/-- A thread there has left its id in `tid`, or has destroyed the pool. -/
def exits : PoolWork θ → Bool
  | exitUnlock _ => true
  | joining _ => true
  | finished => true
  | _ => false

/-- A thread that has destroyed the pool gets there once its task returns. -/
def ends : PoolWork θ → Bool
  | returned => true
  | finished => true
  | _ => false

/-- A thread there has nothing more to do with the pool. -/
def gone : PoolWork θ → Bool
  | outside => true
  | finished => true
  | _ => false

/-- The id that a thread has read from `tid`, and has yet to join. -/
def prev : PoolWork θ → Option (Option θ)
  | exitUnlock t => some t
  | joining t => some t
  | _ => none

end PoolWork

theorem PoolWork.active_of_calls {w : PoolWork θ} (hw : w.calls = true) (hp : w ≠ .outside) : w.active = true := by
  cases w with
  | outside => exact absurd rfl hp
  | running task => rfl
  | _ => cases hw

/-! ## Who may be in a call -/

structure Calling (work : θ → PoolWork θ) (increase : θ → Increase θ) (destroy : Option (θ × Destroy θ)) : Prop where
  before : ∀ a, increase a ≠ .idle → destroy = none
  increasing : ∀ a, increase a ≠ .idle → (work a).calls = true
  destroying : ∀ a d, destroy = some (a, d) → (work a).calls = true ∨ d = .done ∧ (work a).ends = true

section
variable {work : θ → PoolWork θ} {increase : θ → Increase θ} {destroy : Option (θ × Destroy θ)} {a : θ} {d : Destroy θ}

namespace Calling

theorem idle (h : Calling work increase destroy) (ha : (work a).calls = false) : increase a = .idle := by
  by_contra hi
  rw [h.increasing a hi] at ha
  cases ha

/-- A worker in no call, and not the one that has destroyed the pool. -/
theorem other (h : Calling work increase destroy) (ha : (work a).calls = false) (he : (work a).ends = false) :
    ∀ d, destroy ≠ some (a, d) := by
  intro d hd
  rcases h.destroying a d hd with hc | ⟨-, hc⟩
  · rw [hc] at ha
    cases ha
  · rw [hc] at he
    cases he

theorem quiet (h : Calling work increase destroy) (hd : destroy ≠ none) (b : θ) : increase b = .idle := by
  by_contra hi
  exact hd (h.before b hi)

variable [DecidableEq θ]

/-- A thread in no call goes on. -/
theorem goWork (h : Calling work increase destroy) (w : PoolWork θ) (idle : w.calls = true ∨ increase a = .idle)
    (out : ∀ d, destroy = some (a, d) → w.calls = true ∨ d = .done ∧ w.ends = true) :
    Calling (Function.update work a w) increase destroy := by
  refine ⟨h.before, fun b hb => ?_, fun b d hd => ?_⟩
  · rw [Function.update_apply]
    split
    · rename_i e
      rw [e] at hb
      exact idle.resolve_right hb
    · exact h.increasing b hb
  · rw [Function.update_apply]
    split
    · rename_i e
      rw [e] at hd
      exact out d hd
    · exact h.destroying b d hd

omit [DecidableEq θ] in
/-- The destruction goes on. -/
theorem goDestroy (h : Calling work increase destroy) (hd : destroy = some (a, d)) (hne : d ≠ .done) (d' : Destroy θ) :
    Calling work increase (some (a, d')) := by
  refine ⟨fun b hb => ?_, h.increasing, fun b e he => ?_⟩
  · rw [h.before b hb] at hd
    cases hd
  · cases he
    rcases h.destroying a d hd with hc | ⟨hc, -⟩
    · exact .inl hc
    · exact absurd hc hne

theorem goIncrease (h : Calling work increase destroy) (i : Increase θ) (hd : destroy = none)
    (ha : (work a).calls = true) : Calling work (Function.update increase a i) destroy := by
  refine ⟨fun b hb => hd, fun b hb => ?_, h.destroying⟩
  rw [Function.update_apply] at hb
  split at hb
  · rename_i e
    rw [e]
    exact ha
  · exact h.increasing b hb

end Calling

theorem signalTerm_cases (destroy : Option (θ × Destroy θ)) (n : Nat) :
    (if n = 0 then signalTerm destroy else destroy) = destroy ∨
      ∃ a, destroy = some (a, .waiting) ∧ (if n = 0 then signalTerm destroy else destroy) = some (a, .woken) := by
  split
  · unfold signalTerm
    split
    · rename_i a
      exact .inr ⟨a, rfl, rfl⟩
    · exact .inl rfl
  · exact .inl rfl

theorem signalTerm_ne (destroy : Option (θ × Destroy θ)) (b : θ) : signalTerm destroy ≠ some (b, .waiting) := by
  unfold signalTerm
  split
  · simp
  · rename_i hne
    exact hne b

theorem destroyed_signalTerm (destroy : Option (θ × Destroy θ)) (n : Nat) :
    destroyed (if n = 0 then signalTerm destroy else destroy) = destroyed destroy := by
  rcases signalTerm_cases destroy n with e | ⟨a, ha, e⟩ <;> rw [e]
  rw [ha]
  rfl

end

/-! ## The queue -/

theorem fifo_put {q q' : List Int × Bool} {m : Int} (h : fifo q (.put m) = some q') : q' = (q.1 ++ [m], q.2) := by
  unfold fifo at h
  cases h
  rfl

theorem fifo_get {q q' : List Int × Bool} {m : Int} (h : fifo q (.get m) = some q') : q = (m :: q'.1, q'.2) := by
  obtain ⟨l, b⟩ := q
  cases l with
  | nil => cases h
  | cons m' l =>
    unfold fifo at h
    simp only at h
    split at h
    · rename_i e
      cases h
      rw [e]
    · cases h

theorem fifo_empty {q q' : List Int × Bool} (h : fifo q .empty = some q') : q = ([], true) ∧ q' = ([], true) := by
  obtain ⟨l, b⟩ := q
  cases l with
  | nil =>
    cases b with
    | false => cases h
    | true =>
      cases h
      exact ⟨rfl, rfl⟩
  | cons m l => cases h

theorem fifo_mode {q q' : List Int × Bool} {b : Bool} (h : fifo q (.mode b) = some q') : q' = (q.1, b) := by
  unfold fifo at h
  cases h
  rfl

variable [DecidableEq θ]

section
variable {s s' : ThrdPool θ} {x : PoolAction θ} {a : θ}

omit [DecidableEq θ] in
theorem ThrdPool.Calls.calls (h : s.Calls a) : (s.work a).calls = true := by
  rcases h.2 with hw | ⟨task, hw⟩ <;> rw [hw] <;> rfl

omit [DecidableEq θ] in
theorem ThrdPool.inPool_iff : s.inPool a = true ↔ s.work a ≠ .outside := by
  unfold ThrdPool.inPool
  cases s.work a <;> simp

/-- **Only a thread outside the pool or one that runs a task is in a call.** -/
theorem PoolStep.calling (h : Calling s.work s.increase s.destroy) (zero : 5 ≤ s.rank → s.nthreads = 0)
    (step : PoolStep s x s') : Calling s'.work s'.increase s'.destroy := by
  have worker : ∀ (a : θ) (w : PoolWork θ), (s.work a).calls = false → (s.work a).ends = false →
      Calling (Function.update s.work a w) s.increase s.destroy := fun a w hc he =>
    h.goWork w (.inr (h.idle hc)) fun d hd => absurd hd (h.other hc he d)
  cases step with
  | schedule task q alive put => exact h
  | increaseCall calls before => exact h.goIncrease _ before calls.calls
  | increaseFail at_lock lock =>
    rename_i a
    have busy : s.increase a ≠ .idle := by rw [at_lock]; simp
    exact h.goIncrease _ (h.before _ busy) (h.increasing _ busy)
  | increaseCreate at_lock lock out new =>
    rename_i a b
    have busy : s.increase a ≠ .idle := by rw [at_lock]; simp
    have before := h.before _ busy
    refine (h.goIncrease _ before (h.increasing _ busy)).goWork _ (.inr ?_) fun d hd => ?_
    · rw [Function.update_of_ne]
      · exact new
      · intro e
        rw [e, at_lock] at new
        cases new
    · rw [before] at hd
      cases hd
  | increaseCount created =>
    rename_i a b
    have busy : s.increase a ≠ .idle := by rw [created]; simp
    exact h.goIncrease _ (h.before _ busy) (h.increasing _ busy)
  | destroyCall calls before quiet =>
    refine ⟨fun b hb => absurd (quiet b) hb, h.increasing, fun b d hd => ?_⟩
    cases hd
    exact .inl calls.calls
  | setNonblock q at_lock lock set => exact h.goDestroy at_lock (by simp) _
  | setTerminate at_set => exact h.goDestroy at_set (by simp) _
  | leave at_leave => exact h.goDestroy at_leave (by simp) _
  | wait at_check more => exact h.goDestroy at_check (by simp) _
  | spurious waits => exact h.goDestroy waits (by simp) _
  | relock woken lock => exact h.goDestroy woken (by simp) _
  | unlock at_check nobody => exact h.goDestroy at_check (by simp) _
  | noTid unlocked none => exact h.goDestroy unlocked (by simp) _
  | joinTid unlocked last => exact h.goDestroy unlocked (by simp) _
  | joinLast joining ended => exact h.goDestroy joining (by simp) _
  | pend task q draining get => exact h
  | drained q draining get => exact h.goDestroy draining (by simp) _
  | free drained => exact h.goDestroy drained (by simp) _
  | again at_loop on => exact worker _ _ (by rw [at_loop]; rfl) (by rw [at_loop]; rfl)
  | stop at_loop off => exact worker _ _ (by rw [at_loop]; rfl) (by rw [at_loop]; rfl)
  | run task q getting get => exact worker _ _ (by rw [getting]; rfl) (by rw [getting]; rfl)
  | noTask q getting get => exact worker _ _ (by rw [getting]; rfl) (by rw [getting]; rfl)
  | taskReturns task running idle back =>
    exact h.goWork _ (.inr idle) fun d hd => .inr ⟨back d hd, rfl⟩
  | freePool returned nobody =>
    refine h.goWork _ (.inr (h.idle (by rw [returned]; rfl))) fun d hd => ?_
    rcases h.destroying _ d hd with hc | ⟨hc, -⟩
    · rw [returned] at hc
      cases hc
    · exact .inr ⟨hc, rfl⟩
  | goOn returned more =>
    refine h.goWork _ (.inr (h.idle (by rw [returned]; rfl))) fun d hd => ?_
    rcases h.destroying _ d hd with hc | ⟨hc, -⟩
    · rw [returned] at hc
      cases hc
    · refine absurd (zero ?_) more
      show 5 ≤ destroyed s.destroy
      rw [hd, hc]
      show 5 ≤ 9
      omega
  | exit at_lock lock =>
    have moved := worker _ (.exitUnlock s.tid) (by rw [at_lock]; rfl) (by rw [at_lock]; rfl)
    simp only
    rcases signalTerm_cases s.destroy (s.nthreads - 1) with e | ⟨b, hb, e⟩ <;> rw [e]
    · exact moved
    · exact moved.goDestroy hb (by simp) _
  | exitUnlock t holds => exact worker _ _ (by rw [holds]; rfl) (by rw [holds]; rfl)
  | joinNone joining => exact worker _ _ (by rw [joining]; rfl) (by rw [joining]; rfl)
  | joinPrev joining ended => exact worker _ _ (by rw [joining]; rfl) (by rw [joining]; rfl)

end

/-! ## The flags -/

/-- What the flags say of the destruction. -/
structure Flags (work : θ → PoolWork θ) (destroy : Option (θ × Destroy θ)) (terminate nonblock : Bool) : Prop where
  terminate : terminate = true ↔ 3 ≤ destroyed destroy
  nonblock : nonblock = true ↔ 2 ≤ destroyed destroy
  leaving : ∀ a, work a = .exitLock → 2 ≤ destroyed destroy

section
variable {work : θ → PoolWork θ} {destroy : Option (θ × Destroy θ)} {terminate nonblock : Bool} {a : θ}

theorem Flags.goWork (h : Flags work destroy terminate nonblock) (w : PoolWork θ)
    (leaving : w = .exitLock → 2 ≤ destroyed destroy) : Flags (Function.update work a w) destroy terminate nonblock := by
  refine ⟨h.terminate, h.nonblock, fun b hb => ?_⟩
  rw [Function.update_apply] at hb
  split at hb
  · exact leaving hb
  · exact h.leaving b hb

omit [DecidableEq θ] in
/-- The destruction goes on, with no flag to set. -/
theorem Flags.goDestroy (h : Flags work destroy terminate nonblock) {destroy' : Option (θ × Destroy θ)}
    (three : 3 ≤ destroyed destroy' ↔ 3 ≤ destroyed destroy) (two : 2 ≤ destroyed destroy' ↔ 2 ≤ destroyed destroy) :
    Flags work destroy' terminate nonblock := by
  refine ⟨?_, ?_, fun a ha => two.2 (h.leaving a ha)⟩
  · rw [h.terminate, three]
  · rw [h.nonblock, two]

variable {s s' : ThrdPool θ} {x : PoolAction θ}

/-- **The flags are set as the destruction gets to them, and no thread leaves before.** -/
theorem PoolStep.flags (h : Flags s.work s.destroy s.terminate s.queue.2) (step : PoolStep s x s') :
    Flags s'.work s'.destroy s'.terminate s'.queue.2 := by
  have on : ∀ {a : θ} {d : Destroy θ} (d' : Destroy θ), s.destroy = some (a, d) → 3 ≤ d.rank → 3 ≤ d'.rank →
      Flags s.work (some (a, d')) s.terminate s.queue.2 := by
    intro a d d' hd three three'
    apply h.goDestroy <;> rw [hd] <;> simp only [destroyed] <;> omega
  cases step with
  | schedule task q alive put =>
    rw [fifo_put put]
    exact h
  | increaseCall calls before => exact h
  | increaseFail at_lock lock => exact h
  | increaseCreate at_lock lock out new => exact h.goWork _ (by simp)
  | increaseCount created => exact h
  | destroyCall calls before quiet => exact h.goDestroy (by simp [before]) (by simp [before])
  | setNonblock q at_lock lock set =>
    have early := h.terminate
    rw [at_lock] at early
    rw [fifo_mode set]
    exact ⟨early.trans (by simp), by simp, fun a ha => by simp⟩
  | setTerminate at_set =>
    have nonblock := h.nonblock
    rw [at_set] at nonblock
    exact ⟨by simp, nonblock.trans (by simp), fun a ha => by simp⟩
  | leave at_leave => exact on _ at_leave (by simp) (by simp)
  | wait at_check more => exact on _ at_check (by simp) (by simp)
  | spurious waits => exact on _ waits (by simp) (by simp)
  | relock woken lock => exact on _ woken (by simp) (by simp)
  | unlock at_check nobody => exact on _ at_check (by simp) (by simp)
  | noTid unlocked none => exact on _ unlocked (by simp) (by simp)
  | joinTid unlocked last => exact on _ unlocked (by simp) (by simp)
  | joinLast joining ended => exact on _ joining (by simp) (by simp)
  | pend task q draining get =>
    rw [fifo_get get] at h
    exact h
  | drained q draining get =>
    obtain ⟨e, e'⟩ := fifo_empty get
    have goes := on .drained draining (by simp) (by simp)
    rw [e] at goes
    rw [e']
    exact goes
  | free drained => exact on _ drained (by simp) (by simp)
  | again at_loop on => exact h.goWork _ (by simp)
  | stop at_loop off => exact h.goWork _ fun _ => le_trans (by omega) (h.terminate.1 off)
  | run task q getting get =>
    rw [fifo_get get] at h
    exact h.goWork _ (by simp)
  | noTask q getting get =>
    obtain ⟨e, e'⟩ := fifo_empty get
    have two := h.nonblock.1 (by rw [e])
    rw [e] at h
    rw [e']
    exact h.goWork _ fun _ => two
  | taskReturns task running idle back => exact h.goWork _ (by simp)
  | freePool returned nobody => exact h.goWork _ (by simp)
  | goOn returned more => exact h.goWork _ (by simp)
  | exit at_lock lock =>
    have same := destroyed_signalTerm s.destroy (s.nthreads - 1)
    exact (h.goWork _ (by simp)).goDestroy (by rw [same]) (by rw [same])
  | exitUnlock t holds => exact h.goWork _ (by simp)
  | joinNone joining => exact h.goWork _ (by simp)
  | joinPrev joining ended => exact h.goWork _ (by simp)

end

/-! ## Which threads are counted -/

/-- `nthreads` counts the threads `C`: those that will lower it. -/
structure Counts (work : θ → PoolWork θ) (increase : θ → Increase θ) (destroy : Option (θ × Destroy θ)) (nthreads : Nat)
    (C : Finset θ) : Prop where
  card : nthreads = C.card
  active : ∀ a ∈ C, (work a).active = true
  cover : ∀ a, (work a).active = true →
    a ∈ C ∨ (∃ b, increase b = .created a) ∨ ∃ d, destroy = some (a, d) ∧ 4 ≤ d.rank
  fresh : ∀ a b, increase a = .created b → b ∉ C ∧ (work b).active = true
  single : ∀ a a' b, increase a = .created b → increase a' = .created b → a = a'
  gone : ∀ a d, destroy = some (a, d) → 4 ≤ d.rank → a ∉ C
  ended : 5 ≤ destroyed destroy → C = ∅
  sleeping : ∀ a, destroy = some (a, .waiting) → C ≠ ∅

/-- A worker that comes back from a task to a pool that counts nobody has destroyed it. -/
def PoolAction.Counted (s : ThrdPool θ) : PoolAction θ → Prop
  | .work a => s.work a = .returned → s.nthreads = 0 → s.destroy = some (a, .done)
  | _ => True

section
variable {work : θ → PoolWork θ} {increase : θ → Increase θ} {destroy : Option (θ × Destroy θ)} {n : Nat}
  {C : Finset θ} {a b : θ} {w : PoolWork θ}

namespace Counts

theorem goWork (h : Counts work increase destroy n C) (same : w.active = (work a).active) :
    Counts (Function.update work a w) increase destroy n C := by
  have active : ∀ b, (Function.update work a w b).active = (work b).active := by
    intro b
    rw [Function.update_apply]
    split
    · rename_i e
      rw [e, same]
    · rfl
  refine { h with active := fun b hb => ?_, cover := fun b hb => ?_, fresh := fun c b hc => ?_ }
  · rw [active]
    exact h.active b hb
  · rw [active] at hb
    exact h.cover b hb
  · rw [active]
    exact h.fresh c b hc

/-- A thread that is not counted stops. -/
theorem stops (h : Counts work increase destroy n C) (out : a ∉ C) (new : ∀ b, increase b ≠ .created a)
    (off : w.active = false) : Counts (Function.update work a w) increase destroy n C := by
  refine { h with active := fun b hb => ?_, cover := fun b hb => ?_, fresh := fun c b hc => ?_ }
  · rw [Function.update_of_ne (ne_of_mem_of_not_mem hb out)]
    exact h.active b hb
  · rw [Function.update_apply] at hb
    split at hb
    · rw [off] at hb
      cases hb
    · exact h.cover b hb
  · have hb : b ≠ a := by
      rintro rfl
      exact new c hc
    rw [Function.update_of_ne hb]
    exact h.fresh c b hc

/-- Thread `a` lowers `nthreads`. -/
theorem leaves (h : Counts work increase destroy n C) (ha : a ∈ C) (quiet : ∀ b, increase b = .idle)
    {work' : θ → PoolWork θ} {destroy' : Option (θ × Destroy θ)} (others : ∀ b, b ≠ a → work' b = work b)
    (cover : ∀ b d, destroy = some (b, d) → 4 ≤ d.rank → ∃ d', destroy' = some (b, d') ∧ 4 ≤ d'.rank)
    (self : (work' a).active = true → ∃ d', destroy' = some (a, d') ∧ 4 ≤ d'.rank)
    (gone : ∀ b d', destroy' = some (b, d') → 4 ≤ d'.rank → b = a ∨ ∃ d, destroy = some (b, d) ∧ 4 ≤ d.rank)
    (ended : 5 ≤ destroyed destroy' → 5 ≤ destroyed destroy) (sleeping : ∀ b, destroy' = some (b, .waiting) → n - 1 ≠ 0) :
    Counts work' increase destroy' (n - 1) (C.erase a) := by
  refine ⟨?_, fun b hb => ?_, fun b hb => ?_, fun c b hc => ?_, fun c c' b hc => ?_, fun b d hd h4 => ?_, fun h5 => ?_,
    fun b hb e => ?_⟩
  · rw [Finset.card_erase_of_mem ha, h.card]
  · rw [others b (Finset.ne_of_mem_erase hb)]
    exact h.active b (Finset.mem_of_mem_erase hb)
  · by_cases hba : b = a
    · rw [hba] at hb ⊢
      exact .inr (.inr (self hb))
    · rw [others b hba] at hb
      rcases h.cover b hb with hC | ⟨c, hc⟩ | ⟨d, hd, h4⟩
      · exact .inl (Finset.mem_erase.2 ⟨hba, hC⟩)
      · rw [quiet c] at hc
        cases hc
      · exact .inr (.inr (cover b d hd h4))
  · rw [quiet c] at hc
    cases hc
  · rw [quiet c] at hc
    cases hc
  · rcases gone b d hd h4 with rfl | ⟨d', hd', h4'⟩
    · exact Finset.notMem_erase b C
    · exact fun hb => h.gone b d' hd' h4' (Finset.mem_of_mem_erase hb)
  · rw [h.ended (ended h5)] at ha
    simp at ha
  · have := Finset.card_erase_of_mem ha
    rw [e, Finset.card_empty, ← h.card] at this
    exact sleeping b hb this.symm

omit [DecidableEq θ] in
/-- The destruction goes on. -/
theorem goDestroy {d : Destroy θ} (h : Counts work increase destroy n C) (hd : destroy = some (a, d)) (d' : Destroy θ)
    (four : 4 ≤ d'.rank ↔ 4 ≤ d.rank) (ended : 5 ≤ d'.rank → 5 ≤ d.rank ∨ n = 0) (sleeping : d' = .waiting → 0 < n) :
    Counts work increase (some (a, d')) n C := by
  refine { h with cover := fun b hb => ?_, gone := fun b e he h4 => ?_, ended := fun h5 => ?_, sleeping := fun b hb => ?_ }
  · rcases h.cover b hb with hC | hi | ⟨e, he, h4⟩
    · exact .inl hC
    · exact .inr (.inl hi)
    · rw [hd] at he
      cases he
      exact .inr (.inr ⟨d', rfl, four.2 h4⟩)
  · cases he
    exact h.gone a d hd (four.1 h4)
  · rcases ended h5 with h5' | hn
    · refine h.ended ?_
      rw [hd]
      exact h5'
    · rw [← Finset.card_eq_zero, ← h.card, hn]
  · cases hb
    have := sleeping rfl
    rw [h.card] at this
    exact (Finset.card_pos.1 this).ne_empty

/-- A call of `thrdpool_increase` begins, or creates no thread. -/
theorem goIncrease (h : Counts work increase destroy n C) {i : Increase θ} (old : ∀ b, increase a ≠ .created b)
    (new : ∀ b, i ≠ .created b) : Counts work (Function.update increase a i) destroy n C := by
  have same : ∀ c b, Function.update increase a i c = .created b ↔ increase c = .created b := by
    intro c b
    rw [Function.update_apply]
    split
    · rename_i e
      rw [e]
      exact iff_of_false (new b) (old b)
    · exact Iff.rfl
  refine { h with cover := fun b hb => ?_, fresh := fun c b hc => ?_, single := fun c c' b hc hc' => ?_ }
  · rcases h.cover b hb with hC | ⟨c, hc⟩ | hd
    · exact .inl hC
    · exact .inr (.inl ⟨c, (same c b).2 hc⟩)
    · exact .inr (.inr hd)
  · exact h.fresh c b ((same c b).1 hc)
  · exact h.single c c' b ((same c b).1 hc) ((same c' b).1 hc')

/-- `thrdpool_increase` creates the thread `b`. -/
theorem creates (h : Counts work increase destroy n C) (ha : increase a = .locking) (hb : work b = .outside) :
    Counts (Function.update work b .loop) (Function.update increase a (.created b)) destroy n C := by
  have new : ∀ c, (work c).active = true → c ≠ b := by
    rintro c hc rfl
    rw [hb] at hc
    cases hc
  have out : b ∉ C := fun hC => new b (h.active b hC) rfl
  have created : ∀ c d, Function.update increase a (.created b) c = .created d →
      c = a ∧ d = b ∨ increase c = .created d ∧ d ≠ b := by
    intro c d hc
    rw [Function.update_apply] at hc
    split at hc
    · rename_i e
      cases hc
      exact .inl ⟨e, rfl⟩
    · exact .inr ⟨hc, new d (h.fresh c d hc).2⟩
  refine { h with active := fun c hc => ?_, cover := fun c hc => ?_, fresh := fun c d hc => ?_,
                  single := fun c c' d hc hc' => ?_ }
  · rw [Function.update_of_ne (ne_of_mem_of_not_mem hc out)]
    exact h.active c hc
  · by_cases hcb : c = b
    · exact .inr (.inl ⟨a, by rw [Function.update_self, hcb]⟩)
    · rw [Function.update_of_ne hcb] at hc
      rcases h.cover c hc with hC | ⟨c', hc'⟩ | hd
      · exact .inl hC
      · refine .inr (.inl ⟨c', ?_⟩)
        rw [Function.update_of_ne]
        · exact hc'
        · rintro rfl
          rw [ha] at hc'
          cases hc'
      · exact .inr (.inr hd)
  · rcases created c d hc with ⟨-, rfl⟩ | ⟨hc, hd⟩
    · rw [Function.update_self]
      exact ⟨out, rfl⟩
    · rw [Function.update_of_ne hd]
      exact h.fresh c d hc
  · rcases created c d hc with ⟨rfl, rfl⟩ | ⟨hc, hd⟩
    · rcases created c' d hc' with ⟨e, -⟩ | ⟨-, hd⟩
      · exact e.symm
      · exact absurd rfl hd
    · rcases created c' d hc' with ⟨-, e⟩ | ⟨hc', -⟩
      · exact absurd e hd
      · exact h.single c c' d hc hc'

/-- It counts it. -/
theorem joins (h : Counts work increase destroy n C) (ha : increase a = .created b) (hd : destroy = none) :
    Counts work (Function.update increase a .idle) destroy (n + 1) (insert b C) := by
  have created : ∀ c d, Function.update increase a .idle c = .created d → increase c = .created d ∧ d ≠ b := by
    intro c d hc
    rw [Function.update_apply] at hc
    split at hc
    · cases hc
    · rename_i e
      refine ⟨hc, ?_⟩
      rintro rfl
      exact e (h.single c a d hc ha)
  refine ⟨?_, fun c hc => ?_, fun c hc => ?_, fun c d hc => ?_, fun c c' d hc hc' => ?_, fun c d he => ?_, fun h5 => ?_,
    fun c he => ?_⟩
  · rw [Finset.card_insert_of_notMem (h.fresh a b ha).1, h.card]
  · rcases Finset.mem_insert.1 hc with rfl | hc
    · exact (h.fresh a c ha).2
    · exact h.active c hc
  · rcases h.cover c hc with hC | ⟨c', hc'⟩ | hd
    · exact .inl (Finset.mem_insert_of_mem hC)
    · by_cases e : c' = a
      · rw [e, ha] at hc'
        cases hc'
        exact .inl (Finset.mem_insert_self ..)
      · exact .inr (.inl ⟨c', by rw [Function.update_of_ne e, hc']⟩)
    · exact .inr (.inr hd)
  · obtain ⟨hc, hd⟩ := created c d hc
    refine ⟨fun hC => ?_, (h.fresh c d hc).2⟩
    exact (h.fresh c d hc).1 ((Finset.mem_insert.1 hC).resolve_left hd)
  · exact h.single c c' d (created c d hc).1 (created c' d hc').1
  · rw [hd] at he
    cases he
  · rw [hd] at h5
    simp at h5
  · rw [hd] at he
    cases he

end Counts

variable {s s' : ThrdPool θ} {x : PoolAction θ}

omit [DecidableEq θ] in
theorem Calling.begun (h : Calling s.work s.increase s.destroy) (hr : 1 ≤ s.rank) (b : θ) : s.increase b = .idle := by
  apply h.quiet
  intro e
  unfold ThrdPool.rank at hr
  rw [e] at hr
  simp at hr

/-- A thread that is about to exit is counted. -/
theorem Counts.exiting (hc : Calling s.work s.increase s.destroy) (hf : Flags s.work s.destroy s.terminate s.queue.2)
    (h : Counts s.work s.increase s.destroy s.nthreads C) (ha : s.work a = .exitLock) : a ∈ C := by
  have two : 2 ≤ s.rank := hf.leaving a ha
  rcases h.cover a (by rw [ha]; rfl) with hC | ⟨b, hb⟩ | ⟨d, hd, -⟩
  · exact hC
  · rw [hc.begun (by omega) b] at hb
    cases hb
  · exact absurd hd (hc.other (by rw [ha]; rfl) (by rw [ha]; rfl) d)

/-- **`nthreads` counts the threads that will lower it.** -/
theorem PoolStep.counts (hc : Calling s.work s.increase s.destroy) (hf : Flags s.work s.destroy s.terminate s.queue.2)
    (h : Counts s.work s.increase s.destroy s.nthreads C) (counted : x.Counted s) (step : PoolStep s x s') :
    ∃ C', Counts s'.work s'.increase s'.destroy s'.nthreads C' := by
  cases step with
  | schedule task q alive put => exact ⟨C, h⟩
  | increaseCall calls before => exact ⟨C, h.goIncrease (by simp [calls.1]) (by simp)⟩
  | increaseFail at_lock lock => exact ⟨C, h.goIncrease (by simp [at_lock]) (by simp)⟩
  | increaseCreate at_lock lock out new => exact ⟨C, h.creates at_lock out⟩
  | increaseCount created =>
    rename_i a b
    exact ⟨_, h.joins created (hc.before a (by simp [created]))⟩
  | destroyCall calls before quiet =>
    refine ⟨C, { h with cover := fun b hb => ?_, gone := ?_, ended := by simp, sleeping := by simp }⟩
    · rcases h.cover b hb with hC | hi | ⟨d, hd, -⟩
      · exact .inl hC
      · exact .inr (.inl hi)
      · rw [before] at hd
        cases hd
    · intro b d hd h4
      cases hd
      simp at h4
  | setNonblock q at_lock lock set => exact ⟨C, h.goDestroy at_lock _ (by simp) (by simp) (by simp)⟩
  | setTerminate at_set => exact ⟨C, h.goDestroy at_set _ (by simp) (by simp) (by simp)⟩
  | leave at_leave =>
    rename_i a
    have begun : 1 ≤ s.rank := by simp [ThrdPool.rank, at_leave]
    by_cases hp : s.inPool a = true
    · have ha : a ∈ C := by
        have active : (s.work a).active = true := by
          rcases hc.destroying a _ at_leave with hw | ⟨hw, -⟩
          · exact PoolWork.active_of_calls hw (ThrdPool.inPool_iff.1 hp)
          · cases hw
        rcases h.cover a active with hC | ⟨b, hb⟩ | ⟨d, hd, h4⟩
        · exact hC
        · rw [hc.begun begun b] at hb
          cases hb
        · rw [at_leave] at hd
          cases hd
          simp at h4
      refine ⟨C.erase a, ?_⟩
      simp only [hp, if_true]
      refine h.leaves ha (hc.begun begun) (fun _ _ => rfl) (fun b d hd h4 => ?_) (fun _ => ⟨_, rfl, by simp⟩)
        (fun b d hd _ => ?_) (by simp) (fun b hb => ?_)
      · rw [at_leave] at hd
        cases hd
        simp at h4
      · cases hd
        exact .inl rfl
      · cases hb
    · have outside : s.work a = .outside := not_not.1 fun e => hp (ThrdPool.inPool_iff.2 e)
      refine ⟨C, ?_⟩
      simp only [hp, if_false, Bool.false_eq_true]
      refine { h with cover := fun b hb => ?_, gone := fun b d hd _ hC => ?_, ended := by simp, sleeping := by simp }
      · rcases h.cover b hb with hC | hi | ⟨d, hd, h4⟩
        · exact .inl hC
        · exact .inr (.inl hi)
        · rw [at_leave] at hd
          cases hd
          simp at h4
      · cases hd
        have := h.active a hC
        rw [outside] at this
        cases this
  | wait at_check more => exact ⟨C, h.goDestroy at_check _ (by simp) (by simp) fun _ => more⟩
  | spurious waits => exact ⟨C, h.goDestroy waits _ (by simp) (by simp) (by simp)⟩
  | relock woken lock => exact ⟨C, h.goDestroy woken _ (by simp) (by simp) (by simp)⟩
  | unlock at_check nobody => exact ⟨C, h.goDestroy at_check _ (by simp) (fun _ => .inr nobody) (by simp)⟩
  | noTid unlocked none => exact ⟨C, h.goDestroy unlocked _ (by simp) (by simp) (by simp)⟩
  | joinTid unlocked last => exact ⟨C, h.goDestroy unlocked _ (by simp) (by simp) (by simp)⟩
  | joinLast joining ended => exact ⟨C, h.goDestroy joining _ (by simp) (by simp) (by simp)⟩
  | pend task q draining get => exact ⟨C, h⟩
  | drained q draining get => exact ⟨C, h.goDestroy draining _ (by simp) (by simp) (by simp)⟩
  | free drained => exact ⟨C, h.goDestroy drained _ (by simp) (by simp) (by simp)⟩
  | again at_loop on => exact ⟨C, h.goWork (by rw [at_loop]; rfl)⟩
  | stop at_loop off => exact ⟨C, h.goWork (by rw [at_loop]; rfl)⟩
  | run task q getting get => exact ⟨C, h.goWork (by rw [getting]; rfl)⟩
  | noTask q getting get => exact ⟨C, h.goWork (by rw [getting]; rfl)⟩
  | taskReturns task running idle back => exact ⟨C, h.goWork (by rw [running]; rfl)⟩
  | freePool returned nobody =>
    have done := counted returned nobody
    exact ⟨C, h.stops (h.gone _ _ done (by simp)) (fun b => by simp [hc.quiet (by simp [done]) b]) rfl⟩
  | goOn returned more => exact ⟨C, h.goWork (by rw [returned]; rfl)⟩
  | exit at_lock lock =>
    rename_i a
    have two : 2 ≤ s.rank := hf.leaving a at_lock
    have ha := h.exiting hc hf at_lock
    have signal := signalTerm_cases s.destroy (s.nthreads - 1)
    refine ⟨C.erase a, h.leaves ha (hc.begun (by omega)) (fun b hb => Function.update_of_ne hb _ _) (fun b d hd h4 => ?_)
      (fun e => ?_) (fun b d hd h4 => ?_) (fun h5 => ?_) (fun b hb => ?_)⟩
    · rcases signal with e | ⟨c, hc, e⟩
      · exact ⟨d, e.trans hd, h4⟩
      · rw [hc] at hd
        cases hd
        exact ⟨_, e, by simp⟩
    · simp [goWork, PoolWork.active] at e
    · refine .inr ?_
      rcases signal with e | ⟨c, hc, e⟩
      · exact ⟨d, e.symm.trans hd, h4⟩
      · rw [e] at hd
        cases hd
        exact ⟨_, hc, by simp⟩
    · rwa [destroyed_signalTerm] at h5
    · intro hn
      rw [if_pos hn] at hb
      exact signalTerm_ne _ _ hb
  | exitUnlock t holds => exact ⟨C, h.goWork (by rw [holds]; rfl)⟩
  | joinNone joining => exact ⟨C, h.goWork (by rw [joining]; rfl)⟩
  | joinPrev joining ended => exact ⟨C, h.goWork (by rw [joining]; rfl)⟩

end

/-! ## Who joins whom -/

/-- The threads that have left their id in `tid`, the last first: each has the one before it to join, or has joined it
and finished. -/
def Linked (work : θ → PoolWork θ) (joined : θ → Nat) : List θ → Prop
  | [] => True
  | a :: l => (∀ t, (work a).prev = some t → t = l.head? ∧ ∀ b, t = some b → joined b = 0) ∧
    (work a = .finished → ∀ b, l.head? = some b → joined b = 1 ∧ work b = .finished) ∧ Linked work joined l

namespace Linked

variable {work work' : θ → PoolWork θ} {joined joined' : θ → Nat} {a : θ}

omit [DecidableEq θ]

theorem frame : ∀ {l : List θ}, Linked work joined l →
    (∀ b ∈ l, (work' b).prev = (work b).prev ∧ (work' b = .finished ↔ work b = .finished)) →
    (∀ b ∈ l.tail, joined' b = joined b) → Linked work' joined' l
  | [], _, _, _ => trivial
  | a :: l, ⟨h1, h2, h3⟩, hw, hj => by
    obtain ⟨hprev, hfin⟩ := hw a List.mem_cons_self
    have head : ∀ b, l.head? = some b → b ∈ l := fun b hb => List.mem_of_head? hb
    refine ⟨fun t ht => ?_, fun hf b hb => ?_, h3.frame (fun b hb => hw b (List.mem_cons_of_mem a hb)) fun b hb =>
      hj b (List.mem_of_mem_tail hb)⟩
    · rw [hprev] at ht
      obtain ⟨e, h0⟩ := h1 t ht
      refine ⟨e, fun b hb => ?_⟩
      rw [hj b (head b (e ▸ hb))]
      exact h0 b hb
    · obtain ⟨hb1, hb2⟩ := h2 (hfin.1 hf) b hb
      refine ⟨?_, (hw b (List.mem_cons_of_mem a (head b hb))).2.2 hb2⟩
      rw [hj b (head b hb)]
      exact hb1

/-- The thread that one has to join exited before it. -/
theorem prev_mem {t : θ} : ∀ {l : List θ}, Linked work joined l → a ∈ l → (work a).prev = some (some t) → t ∈ l.tail
  | [], _, ha, _ => by simp at ha
  | c :: l, ⟨h1, _, h3⟩, ha, ht => by
    rcases List.mem_cons.1 ha with rfl | ha
    · exact List.mem_of_head? (h1 _ ht).1.symm
    · exact List.mem_of_mem_tail (h3.prev_mem ha ht)

/-- All that exited before a thread that is finished are joined, and finished. -/
theorem done : ∀ {l : List θ} {a : θ}, Linked work joined (a :: l) → work a = .finished →
    ∀ b ∈ l, joined b = 1 ∧ work b = .finished
  | [], _, _, _, b, hb => by simp at hb
  | c :: l, a, ⟨_, h2, h3⟩, ha, b, hb => by
    obtain ⟨hc1, hc2⟩ := h2 ha c rfl
    rcases List.mem_cons.1 hb with rfl | hb
    · exact ⟨hc1, hc2⟩
    · exact h3.done hc2 b hb

/-- Nobody but the last is joined more than once, or before it has finished. -/
theorem joined_le : ∀ {l : List θ}, Linked work joined l → (∀ a ∈ l, (work a).exits = true) →
    ∀ b ∈ l.tail, joined b = 0 ∨ joined b = 1 ∧ work b = .finished
  | [], _, _, b, hb => by simp at hb
  | [a], _, _, b, hb => by simp at hb
  | a :: c :: l, ⟨h1, h2, h3⟩, exits, b, hb => by
    rcases List.mem_cons.1 hb with rfl | hb
    · have ha := exits a List.mem_cons_self
      cases hw : work a with
      | exitUnlock t =>
        obtain ⟨e, h0⟩ := h1 t (by rw [hw]; rfl)
        exact .inl (h0 b e)
      | joining t =>
        obtain ⟨e, h0⟩ := h1 t (by rw [hw]; rfl)
        exact .inl (h0 b e)
      | finished => exact .inr (h2 hw b rfl)
      | _ =>
        rw [hw] at ha
        cases ha
    · exact h3.joined_le (fun d hd => exits d (List.mem_cons_of_mem a hd)) b hb

/-- **As long as one is not finished, one of them can go on.** -/
theorem moves : ∀ {l : List θ}, Linked work joined l → (∀ a ∈ l, (work a).exits = true) →
    (∀ a ∈ l, work a = .finished) ∨ ∃ a ∈ l, (∃ t, work a = .exitUnlock t) ∨
      ∃ t, work a = .joining t ∧ ∀ b, t = some b → work b = .finished
  | [], _, _ => .inl (by simp)
  | a :: l, ⟨h1, h2, h3⟩, exits => by
    rcases h3.moves fun b hb => exits b (List.mem_cons_of_mem a hb) with all | ⟨b, hb, moves⟩
    · have ha := exits a List.mem_cons_self
      cases hw : work a with
      | exitUnlock t => exact .inr ⟨a, List.mem_cons_self, .inl ⟨t, hw⟩⟩
      | joining t =>
        obtain ⟨e, -⟩ := h1 t (by rw [hw]; rfl)
        refine .inr ⟨a, List.mem_cons_self, .inr ⟨t, hw, fun b hb => all b ?_⟩⟩
        exact List.mem_of_head? (e ▸ hb)
      | finished =>
        refine .inl fun b hb => ?_
        rcases List.mem_cons.1 hb with rfl | hb
        · exact hw
        · exact all b hb
      | _ =>
        rw [hw] at ha
        cases ha
    · exact .inr ⟨b, List.mem_cons_of_mem a hb, moves⟩

variable [DecidableEq θ]

/-- **Thread `a` joins the one before it, if there is one, and finishes.** -/
theorem finish {t : Option θ} (prev : (work a).prev = some t) (ended : ∀ b, t = some b → work b = .finished)
    (others : ∀ c, t ≠ some c → joined' c = joined c) (joins : ∀ b, t = some b → joined b = 0 → joined' b = 1) :
    ∀ {l : List θ}, Linked work joined l → l.Nodup → a ∈ l → Linked (Function.update work a .finished) joined' l
  | [], _, _, ha => by simp at ha
  | c :: l, ⟨h1, h2, h3⟩, nodup, ha => by
    obtain ⟨hc, apart⟩ := List.nodup_cons.1 nodup
    have running : work a ≠ .finished := by
      intro e
      rw [e] at prev
      cases prev
    -- the thread joined is behind `a` in the list
    have later : ∀ b, t = some b → a ∈ l → b ∈ l.tail := fun b hb hal => h3.prev_mem hal (by rw [prev, hb])
    by_cases hac : a = c
    · subst hac
      obtain ⟨e, h0⟩ := h1 t prev
      refine ⟨fun t' ht' => ?_, fun _ b hb => ?_, h3.frame (fun b hb => ?_) fun b hb => ?_⟩
      · rw [Function.update_self] at ht'
        cases ht'
      · have hb' : t = some b := e.trans hb
        refine ⟨joins b hb' (h0 b hb'), ?_⟩
        rw [Function.update_of_ne (ne_of_mem_of_not_mem (List.mem_of_head? hb) hc)]
        exact ended b hb'
      · rw [Function.update_of_ne (ne_of_mem_of_not_mem hb hc)]
        exact ⟨rfl, Iff.rfl⟩
      · apply others
        rintro rfl
        cases l with
        | nil => cases e
        | cons d l =>
          cases e
          exact (List.nodup_cons.1 apart).1 hb
    · have hal : a ∈ l := (List.mem_cons.1 ha).resolve_left hac
      have keeps : ∀ b, l.head? = some b → joined' b = joined b := by
        intro b hb
        apply others
        intro e
        have hmem := later b e hal
        cases l with
        | nil => cases hb
        | cons d l =>
          cases hb
          exact (List.nodup_cons.1 apart).1 hmem
      refine ⟨fun t' ht' => ?_, fun hf b hb => ?_, finish prev ended others joins h3 apart hal⟩
      · rw [Function.update_of_ne (Ne.symm hac)] at ht'
        obtain ⟨e, h0⟩ := h1 t' ht'
        refine ⟨e, fun b hb => ?_⟩
        rw [keeps b (e ▸ hb)]
        exact h0 b hb
      · rw [Function.update_of_ne (Ne.symm hac)] at hf
        obtain ⟨hb1, hb2⟩ := h2 hf b hb
        rw [keeps b hb]
        refine ⟨hb1, ?_⟩
        rw [Function.update_apply]
        split
        · rfl
        · exact hb2

end Linked

end Tinywf
