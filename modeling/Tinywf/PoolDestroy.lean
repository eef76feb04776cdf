import Tinywf.PoolJoins
/-!
# PoolDestroy — a pool is destroyed once, and every thread of it joined once

The rest of what holds between two steps (`PoolOk`): the chain of the threads that have exited (`JoinChain`), what is freed
(`Frees`), where the tasks are (`Tasks`), who holds the mutex (`Locked`) and who is detached (`Detached`).  With it a pool
meets its contract in every run in which no worker takes it for destroyed that is not (`pool_destroyed`).  A pool created
with a thread has no other runs (`pool_destroyed_created`); one created with none has (`pool_freed_early`).
-/
namespace Tinywf

open Lts ThrdPool

variable {θ : Type}

/-! ## The chain of joins -/

/-- `X` are the threads that have left their id in `tid`, the last first. -/
structure JoinChain (work : θ → PoolWork θ) (joined : θ → Nat) (tid : Option θ) (destroy : Option (θ × Destroy θ))
    (X : List θ) : Prop where
  nodup : X.Nodup
  mem : ∀ a, a ∈ X ↔ (work a).exits = true ∧ ∀ d, destroy ≠ some (a, d)
  tid : tid = X.head?
  linked : Linked work joined X
  unjoined : ∀ a, a ∉ X → joined a = 0
  first : ∀ a, X.head? = some a → joined a = if 7 ≤ destroyed destroy then 1 else 0
  last : ∀ a t, destroy = some (a, .joining t) → X.head? = some t
  finished : 7 ≤ destroyed destroy → ∀ a, X.head? = some a → work a = .finished

namespace JoinChain

variable {work : θ → PoolWork θ} {joined : θ → Nat} {tid : Option θ} {destroy : Option (θ × Destroy θ)} {X : List θ}
  {a : θ} {d : Destroy θ} {w : PoolWork θ}

/-- The destruction goes on. -/
theorem goDestroy (h : JoinChain work joined tid destroy X) (hd : destroy = some (a, d)) (d' : Destroy θ)
    (seven : 7 ≤ d'.rank ↔ 7 ≤ d.rank) (last : ∀ t, d' = .joining t → tid = some t) :
    JoinChain work joined tid (some (a, d')) X := by
  have mem : ∀ b, (∀ e, some (a, d') ≠ some (b, e)) ↔ ∀ e, destroy ≠ some (b, e) := by
    intro b
    rw [hd]
    constructor
    · intro hb e he
      cases he
      exact hb d' rfl
    · intro hb e he
      cases he
      exact hb d rfl
  have same : 7 ≤ destroyed (some (a, d')) ↔ 7 ≤ destroyed destroy := by
    rw [hd]
    exact seven
  refine { h with mem := fun b => ?_, first := fun b hb => ?_, last := fun b t hb => ?_, finished := fun h7 => ?_ }
  · rw [h.mem b, mem b]
  · rw [h.first b hb]
    simp only [same]
  · cases hb
    rw [← h.tid]
    exact last t rfl
  · exact h.finished (same.1 h7)

/-- It begins. -/
theorem begin (h : JoinChain work joined tid none X) (ha : (work a).exits = false) :
    JoinChain work joined tid (some (a, .locking)) X := by
  refine { h with mem := fun b => ?_, last := fun b t hb => (by cases hb), finished := fun h7 => ?_ }
  · rw [h.mem b]
    refine ⟨fun hb => ⟨hb.1, fun e he => ?_⟩, fun hb => ⟨hb.1, fun e he => (by cases he)⟩⟩
    cases he
    rw [ha] at hb
    cases hb.1
  · simp at h7

/-- There is nobody to join. -/
theorem alone (h : JoinChain work joined none (some (a, .unlocked)) X) :
    JoinChain work joined none (some (a, .draining)) X := by
  have hX : X = [] := List.head?_eq_none_iff.1 h.tid.symm
  subst hX
  refine { h with mem := fun b => ?_, first := fun b hb => (by cases hb), last := fun b t hb => (by cases hb),
                  finished := fun _ b hb => (by cases hb) }
  rw [h.mem b]
  refine and_congr_right fun _ => ⟨fun hb e he => ?_, fun hb e he => ?_⟩
  · cases he
    exact hb _ rfl
  · cases he
    exact hb _ rfl

variable [DecidableEq θ]

/-- A thread that has not exited goes on, or the destroying one returns. -/
theorem goWork (h : JoinChain work joined tid destroy X) (before : (work a).exits = false)
    (after : w.exits = false ∨ ∃ d, destroy = some (a, d)) :
    JoinChain (Function.update work a w) joined tid destroy X := by
  have out : a ∉ X := fun ha => by
    rw [((h.mem a).1 ha).1] at before
    cases before
  refine { h with mem := fun b => ?_, linked := h.linked.frame (fun b hb => ?_) (fun b _ => rfl),
                  finished := fun h7 b hb => ?_ }
  · by_cases hb : b = a
    · subst hb
      rw [Function.update_self]
      refine iff_of_false out fun hw => ?_
      rcases after with hw' | ⟨d, hd⟩
      · rw [hw'] at hw
        cases hw.1
      · exact hw.2 d hd
    · rw [Function.update_of_ne hb, h.mem b]
  · rw [Function.update_of_ne (ne_of_mem_of_not_mem hb out)]
    exact ⟨rfl, Iff.rfl⟩
  · rw [Function.update_of_ne (ne_of_mem_of_not_mem (List.mem_of_head? hb) out)]
    exact h.finished h7 b hb

/-- **Thread `a` takes the id of the last one and leaves its own.** -/
theorem exit (h : JoinChain work joined tid destroy X) (before : (work a).exits = false)
    (other : ∀ d, destroy ≠ some (a, d)) (early : destroyed destroy < 6) :
    JoinChain (Function.update work a (.exitUnlock tid)) joined (some a) destroy (a :: X) := by
  have out : a ∉ X := fun ha => by
    rw [((h.mem a).1 ha).1] at before
    cases before
  refine ⟨List.nodup_cons.2 ⟨out, h.nodup⟩, fun b => ?_, rfl, ⟨fun t ht => ?_, fun hf => ?_, ?_⟩, fun b hb => ?_,
    fun b hb => ?_, fun b t hb => ?_, fun h7 => by omega⟩
  · rw [List.mem_cons]
    by_cases hb : b = a
    · subst hb
      rw [Function.update_self]
      exact iff_of_true (.inl rfl) ⟨rfl, other⟩
    · rw [Function.update_of_ne hb, h.mem b]
      exact ⟨fun hb' => hb'.resolve_left hb, .inr⟩
  · rw [Function.update_self] at ht
    cases ht
    refine ⟨h.tid, fun b hb => ?_⟩
    rw [h.first b (h.tid ▸ hb), if_neg (by omega)]
  · rw [Function.update_self] at hf
    cases hf
  · refine h.linked.frame (fun b hb => ?_) fun b _ => rfl
    rw [Function.update_of_ne (ne_of_mem_of_not_mem hb out)]
    exact ⟨rfl, Iff.rfl⟩
  · exact h.unjoined b fun hX => hb (List.mem_cons_of_mem a hX)
  · cases hb
    rw [h.unjoined _ out, if_neg (by omega)]
  · rw [hb] at early
    simp at early

/-- It gives the mutex back. -/
theorem unlock (h : JoinChain work joined tid destroy X) {t : Option θ} (ha : work a = .exitUnlock t) :
    JoinChain (Function.update work a (.joining t)) joined tid destroy X := by
  have same : ∀ b, (Function.update work a (.joining t) b).prev = (work b).prev ∧
      (Function.update work a (.joining t) b = .finished ↔ work b = .finished) ∧
      (Function.update work a (.joining t) b).exits = (work b).exits := by
    intro b
    rw [Function.update_apply]
    split
    · rename_i e
      rw [e, ha]
      exact ⟨rfl, by simp, rfl⟩
    · exact ⟨rfl, Iff.rfl, rfl⟩
  refine { h with mem := fun b => ?_, linked := h.linked.frame (fun b _ => ⟨(same b).1, (same b).2.1⟩) fun b _ => rfl,
                  finished := fun h7 b hb => (same b).2.1.2 (h.finished h7 b hb) }
  rw [(same b).2.2, h.mem b]

/-- **It joins the one before it, if there is one, and finishes.** -/
theorem finish (h : JoinChain work joined tid destroy X) {t : Option θ} {joined' : θ → Nat} (ha : work a = .joining t)
    (other : ∀ d, destroy ≠ some (a, d)) (ended : ∀ b, t = some b → work b = .finished)
    (others : ∀ c, t ≠ some c → joined' c = joined c) (joins : ∀ b, t = some b → joined' b = joined b + 1) :
    JoinChain (Function.update work a .finished) joined' tid destroy X := by
  have hX : a ∈ X := (h.mem a).2 ⟨by rw [ha]; rfl, other⟩
  have prev : (work a).prev = some t := by rw [ha]; rfl
  have later : ∀ b, t = some b → b ∈ X.tail := fun b hb => h.linked.prev_mem hX (by rw [prev, hb])
  have head : ∀ b, X.head? = some b → joined' b = joined b := by
    intro b hb
    apply others
    intro e
    have hmem := later b e
    cases X with
    | nil => cases hb
    | cons c l =>
      cases hb
      exact (List.nodup_cons.1 h.nodup).1 hmem
  refine { h with mem := fun b => ?_, linked := ?_, unjoined := fun b hb => ?_, first := fun b hb => ?_,
                  finished := fun h7 b hb => ?_ }
  · by_cases hb : b = a
    · subst hb
      rw [Function.update_self]
      exact iff_of_true hX ⟨rfl, other⟩
    · rw [Function.update_of_ne hb, h.mem b]
  · refine h.linked.finish prev ended others (fun b hb h0 => ?_) h.nodup hX
    rw [joins b hb, h0]
  · rw [others b fun e => hb (List.mem_of_mem_tail (later b e)), h.unjoined b hb]
  · rw [head b hb, h.first b hb]
  · rw [Function.update_apply]
    split
    · rfl
    · exact h.finished h7 b hb

/-- **The destroying thread joins the last one.** -/
theorem joinLast {t : θ} (h : JoinChain work joined tid (some (a, .joining t)) X) (ended : work t = .finished) :
    JoinChain work (Function.update joined t (joined t + 1)) tid (some (a, .draining)) X := by
  have ht := h.last a t rfl
  have hmem := List.mem_of_head? ht
  refine { h with mem := fun b => ?_, linked := h.linked.frame (fun b _ => ⟨rfl, Iff.rfl⟩) fun b hb => ?_,
                  unjoined := fun b hb => ?_, first := fun b hb => ?_, last := fun b u hb => (by cases hb),
                  finished := fun _ b hb => ?_ }
  · rw [h.mem b]
    refine and_congr_right fun _ => ⟨fun hb e he => ?_, fun hb e he => ?_⟩
    · cases he
      exact hb _ rfl
    · cases he
      exact hb _ rfl
  · rw [Function.update_of_ne]
    rintro rfl
    cases X with
    | nil => cases ht
    | cons c l =>
      cases ht
      exact (List.nodup_cons.1 h.nodup).1 hb
  · rw [Function.update_of_ne (Ne.symm (ne_of_mem_of_not_mem hmem hb)), h.unjoined b hb]
  · rw [ht] at hb
    cases hb
    rw [Function.update_self, h.first t ht]
    rfl
  · rw [ht] at hb
    cases hb
    exact ended

end JoinChain

variable [DecidableEq θ]

section
variable {s s' : ThrdPool θ} {x : PoolAction θ} {C : Finset θ} {X : List θ}

/-- **Who has exited is in the chain.** -/
theorem PoolStep.chain (hc : Calling s.work s.increase s.destroy) (hf : Flags s.work s.destroy s.terminate s.queue.2)
    (h : Counts s.work s.increase s.destroy s.nthreads C) (hj : JoinChain s.work s.joined s.tid s.destroy X)
    (counted : x.Counted s) (step : PoolStep s x s') :
    ∃ X', JoinChain s'.work s'.joined s'.tid s'.destroy X' := by
  cases step with
  | schedule task q alive put => exact ⟨X, hj⟩
  | increaseCall calls before => exact ⟨X, hj⟩
  | increaseFail at_lock lock => exact ⟨X, hj⟩
  | increaseCreate at_lock lock out new => exact ⟨X, hj.goWork (by rw [out]; rfl) (.inl rfl)⟩
  | increaseCount created => exact ⟨X, hj⟩
  | destroyCall calls before quiet =>
    rename_i a
    rw [before] at hj
    refine ⟨X, hj.begin ?_⟩
    rcases calls.2 with hw | ⟨task, hw⟩ <;> rw [hw] <;> rfl
  | setNonblock q at_lock lock set => exact ⟨X, hj.goDestroy at_lock _ (by simp) (by simp)⟩
  | setTerminate at_set => exact ⟨X, hj.goDestroy at_set _ (by simp) (by simp)⟩
  | leave at_leave => exact ⟨X, hj.goDestroy at_leave _ (by simp) (by simp)⟩
  | wait at_check more => exact ⟨X, hj.goDestroy at_check _ (by simp) (by simp)⟩
  | spurious waits => exact ⟨X, hj.goDestroy waits _ (by simp) (by simp)⟩
  | relock woken lock => exact ⟨X, hj.goDestroy woken _ (by simp) (by simp)⟩
  | unlock at_check nobody => exact ⟨X, hj.goDestroy at_check _ (by simp) (by simp)⟩
  | noTid unlocked none =>
    rw [unlocked, none] at hj
    refine ⟨X, ?_⟩
    rw [goDestroy, none]
    exact hj.alone
  | joinTid unlocked last => exact ⟨X, hj.goDestroy unlocked _ (by simp) fun t e => by cases e; exact last⟩
  | joinLast joining ended =>
    rw [joining] at hj
    exact ⟨X, hj.joinLast ended⟩
  | pend task q draining get => exact ⟨X, hj⟩
  | drained q draining get => exact ⟨X, hj.goDestroy draining _ (by simp) (by simp)⟩
  | free drained => exact ⟨X, hj.goDestroy drained _ (by simp) (by simp)⟩
  | again at_loop on => exact ⟨X, hj.goWork (by rw [at_loop]; rfl) (.inl rfl)⟩
  | stop at_loop off => exact ⟨X, hj.goWork (by rw [at_loop]; rfl) (.inl rfl)⟩
  | run task q getting get => exact ⟨X, hj.goWork (by rw [getting]; rfl) (.inl rfl)⟩
  | noTask q getting get => exact ⟨X, hj.goWork (by rw [getting]; rfl) (.inl rfl)⟩
  | taskReturns task running idle back => exact ⟨X, hj.goWork (by rw [running]; rfl) (.inl rfl)⟩
  | freePool returned nobody =>
    exact ⟨X, hj.goWork (by rw [returned]; rfl) (.inr ⟨_, counted returned nobody⟩)⟩
  | goOn returned more => exact ⟨X, hj.goWork (by rw [returned]; rfl) (.inl rfl)⟩
  | exit at_lock lock =>
    rename_i a
    have ha := h.exiting hc hf at_lock
    have early : destroyed s.destroy < 6 := by
      by_contra h6
      rw [h.ended (by omega)] at ha
      simp at ha
    have moved := hj.exit (by rw [at_lock]; rfl) (hc.other (by rw [at_lock]; rfl) (by rw [at_lock]; rfl)) early
    refine ⟨a :: X, ?_⟩
    simp only
    rcases signalTerm_cases s.destroy (s.nthreads - 1) with e | ⟨b, hb, e⟩ <;> rw [e]
    · exact moved
    · exact moved.goDestroy hb _ (by simp) (by simp)
  | exitUnlock t holds => exact ⟨X, hj.unlock holds⟩
  | joinNone joining =>
    exact ⟨X, hj.finish joining (hc.other (by rw [joining]; rfl) (by rw [joining]; rfl)) (by simp) (fun _ _ => rfl) (by simp)⟩
  | joinPrev joining ended =>
    refine ⟨X, hj.finish joining (hc.other (by rw [joining]; rfl) (by rw [joining]; rfl)) (fun b e => ?_) (fun c e => ?_)
      fun b e => ?_⟩
    · cases e
      exact ended
    · exact Function.update_of_ne (fun hc => e (by rw [hc])) _ _
    · cases e
      exact Function.update_self ..

/-- **From the moment nobody is counted, only the destroying thread may be in the pool and not have exited.** -/
theorem Counts.ended_active (hc : Calling s.work s.increase s.destroy)
    (h : Counts s.work s.increase s.destroy s.nthreads C) (h5 : 5 ≤ s.rank) {a : θ} (ha : (s.work a).active = true) :
    ∃ d, s.destroy = some (a, d) := by
  rcases h.cover a ha with hC | ⟨b, hb⟩ | ⟨d, hd, -⟩
  · rw [h.ended h5] at hC
    simp at hC
  · rw [hc.begun (by omega) b] at hb
    cases hb
  · exact ⟨d, hd⟩

/-- Nobody takes a task then. -/
theorem Counts.not_getting (hc : Calling s.work s.increase s.destroy)
    (h : Counts s.work s.increase s.destroy s.nthreads C) (h5 : 5 ≤ s.rank) (a : θ) : s.work a ≠ .getting := by
  intro ha
  obtain ⟨d, hd⟩ := h.ended_active hc h5 (by rw [ha]; rfl)
  exact hc.other (by rw [ha]; rfl) (by rw [ha]; rfl) d hd

end

/-! ## What is freed -/

/-- The pool is freed at the end of `thrdpool_destroy` or, by a thread of the pool, when its task returns. -/
structure Frees (work : θ → PoolWork θ) (destroy : Option (θ × Destroy θ)) (freed : Nat) : Prop where
  early : destroyed destroy < 9 → freed = 0
  late : ∀ a, destroy = some (a, .done) → freed = if (work a).gone then 1 else 0

section
variable {work : θ → PoolWork θ} {destroy : Option (θ × Destroy θ)} {freed : Nat} {a : θ} {d : Destroy θ}

omit [DecidableEq θ] in
theorem Frees.goDestroy (h : Frees work destroy freed) (hd : destroy = some (a, d)) (hne : d.rank < 9) {d' : Destroy θ}
    (hne' : d'.rank < 9) : Frees work (some (a, d')) freed := by
  refine ⟨fun _ => h.early (by rw [hd]; exact hne), fun b hb => ?_⟩
  cases hb
  simp at hne'

theorem Frees.goWork (h : Frees work destroy freed) {w : PoolWork θ} (same : w.gone = (work a).gone) :
    Frees (Function.update work a w) destroy freed := by
  refine ⟨h.early, fun b hb => ?_⟩
  rw [h.late b hb]
  by_cases hba : b = a
  · rw [hba, Function.update_self, same]
  · rw [Function.update_of_ne hba]

/-- A thread other than the destroying one, or before it is done. -/
theorem Frees.other (h : Frees work destroy freed) (w : PoolWork θ) (hne : destroy ≠ some (a, .done)) :
    Frees (Function.update work a w) destroy freed := by
  refine ⟨h.early, fun b hb => ?_⟩
  rw [h.late b hb, Function.update_of_ne]
  rintro rfl
  exact hne hb

end

section
variable {s s' : ThrdPool θ} {x : PoolAction θ}

/-- **The pool is freed once, by the thread that destroys it.** -/
theorem PoolStep.frees (hc : Calling s.work s.increase s.destroy) (h : Frees s.work s.destroy s.freed)
    (counted : x.Counted s) (step : PoolStep s x s') : Frees s'.work s'.destroy s'.freed := by
  have other : ∀ (a : θ) (w : PoolWork θ), (s.work a).calls = false → (s.work a).ends = false →
      Frees (Function.update s.work a w) s.destroy s.freed := fun a w hca he => h.other w (hc.other hca he _)
  cases step with
  | schedule task q alive put => exact h
  | increaseCall calls before => exact h
  | increaseFail at_lock lock => exact h
  | increaseCreate at_lock lock out new =>
    rename_i a b
    refine h.other _ fun hd => ?_
    have hd' : s.destroy = some (b, .done) := hd
    rw [hc.before a (by rw [at_lock]; simp)] at hd'
    cases hd'
  | increaseCount created => exact h
  | destroyCall calls before quiet =>
    refine ⟨fun _ => h.early (by rw [before]; simp), fun a ha => ?_⟩
    cases ha
  | setNonblock q at_lock lock set => exact h.goDestroy at_lock (by simp) (by simp)
  | setTerminate at_set => exact h.goDestroy at_set (by simp) (by simp)
  | leave at_leave => exact h.goDestroy at_leave (by simp) (by simp)
  | wait at_check more => exact h.goDestroy at_check (by simp) (by simp)
  | spurious waits => exact h.goDestroy waits (by simp) (by simp)
  | relock woken lock => exact h.goDestroy woken (by simp) (by simp)
  | unlock at_check nobody => exact h.goDestroy at_check (by simp) (by simp)
  | noTid unlocked none => exact h.goDestroy unlocked (by simp) (by simp)
  | joinTid unlocked last => exact h.goDestroy unlocked (by simp) (by simp)
  | joinLast joining ended => exact h.goDestroy joining (by simp) (by simp)
  | pend task q draining get => exact h
  | drained q draining get => exact h.goDestroy draining (by simp) (by simp)
  | free drained =>
    rename_i a
    refine ⟨fun h9 => by simp [goDestroy] at h9, fun b hb => ?_⟩
    cases hb
    have hfreed := h.early (by rw [drained]; simp)
    rcases hc.destroying a _ drained with hw | ⟨hw, -⟩
    · have hgone : (s.work a).gone = !s.inPool a := by
        unfold inPool
        cases hwork : s.work a with
        | outside => rfl
        | running task => rfl
        | _ =>
          rw [hwork] at hw
          cases hw
      simp only [goDestroy, hgone, hfreed]
      cases s.inPool a <;> rfl
    · cases hw
  | again at_loop on => exact other _ _ (by rw [at_loop]; rfl) (by rw [at_loop]; rfl)
  | stop at_loop off => exact other _ _ (by rw [at_loop]; rfl) (by rw [at_loop]; rfl)
  | run task q getting get => exact other _ _ (by rw [getting]; rfl) (by rw [getting]; rfl)
  | noTask q getting get => exact other _ _ (by rw [getting]; rfl) (by rw [getting]; rfl)
  | taskReturns task running idle back => exact h.goWork (by rw [running]; rfl)
  | freePool returned nobody =>
    rename_i a
    have done := counted returned nobody
    refine ⟨fun h9 => ?_, fun b hb => ?_⟩
    · simp [goWork, done] at h9
    · have hfreed := h.late a done
      rw [returned] at hfreed
      have hb' : s.destroy = some (b, .done) := hb
      rw [done] at hb'
      cases hb'
      show s.freed + 1 = if (Function.update s.work a .finished a).gone = true then 1 else 0
      rw [Function.update_self, hfreed]
      rfl
  | goOn returned more => exact h.goWork (by rw [returned]; rfl)
  | exit at_lock lock =>
    rename_i a
    have moved := other a (.exitUnlock s.tid) (by rw [at_lock]; rfl) (by rw [at_lock]; rfl)
    simp only
    rcases signalTerm_cases s.destroy (s.nthreads - 1) with e | ⟨b, hb, e⟩ <;> rw [e]
    · exact moved
    · exact moved.goDestroy hb (by simp) (by simp)
  | exitUnlock t holds => exact other _ _ (by rw [holds]; rfl) (by rw [holds]; rfl)
  | joinNone joining => exact other _ _ (by rw [joining]; rfl) (by rw [joining]; rfl)
  | joinPrev joining ended => exact other _ _ (by rw [joining]; rfl) (by rw [joining]; rfl)

end

/-! ## The tasks -/

/-- The tasks scheduled are in the queue, or were run or passed on. -/
structure Tasks (rank : Nat) (queue scheduled ran pended : List Int) : Prop where
  early : rank < 8 → scheduled.Perm (ran ++ pended ++ queue)
  late : 8 ≤ rank → scheduled.Perm (ran ++ pended)

section
variable {s s' : ThrdPool θ} {x : PoolAction θ} {C : Finset θ}

omit [DecidableEq θ] in
theorem Tasks.goes {rank rank' : Nat} {queue scheduled ran pended : List Int} (h : Tasks rank queue scheduled ran pended)
    (eight : 8 ≤ rank' ↔ 8 ≤ rank) : Tasks rank' queue scheduled ran pended :=
  ⟨fun h8 => h.early (by omega), fun h8 => h.late (eight.1 h8)⟩

/-- **No task is lost, and none is taken twice.** -/
theorem PoolStep.tasks (hc : Calling s.work s.increase s.destroy)
    (hn : Counts s.work s.increase s.destroy s.nthreads C) (h : Tasks s.rank s.queue.1 s.scheduled s.ran s.pended)
    (step : PoolStep s x s') : Tasks s'.rank s'.queue.1 s'.scheduled s'.ran s'.pended := by
  have on : ∀ {a : θ} {d : Destroy θ} (d' : Destroy θ), s.destroy = some (a, d) → (8 ≤ d'.rank ↔ 8 ≤ d.rank) →
      Tasks d'.rank s.queue.1 s.scheduled s.ran s.pended := by
    intro a d d' hd eight
    apply h.goes
    rw [eight, ThrdPool.rank, hd]
    exact Iff.rfl
  cases step with
  | schedule task q alive put =>
    rw [fifo_put put]
    refine ⟨fun h8 => ?_, fun h8 => ?_⟩
    · have hrank : s.rank < 8 := h8
      simp only [if_pos hrank, ← List.append_assoc]
      exact (h.early hrank).append_right [task]
    · have hrank : 8 ≤ s.rank := h8
      simp only [if_neg (Nat.not_lt.2 hrank)]
      exact h.late hrank
  | increaseCall calls before => exact h
  | increaseFail at_lock lock => exact h
  | increaseCreate at_lock lock out new => exact h
  | increaseCount created => exact h
  | destroyCall calls before quiet => exact h.goes (by simp [ThrdPool.rank, before, goDestroy])
  | setNonblock q at_lock lock set =>
    rw [fifo_mode set]
    exact on .nonblock at_lock (by simp)
  | setTerminate at_set => exact on .leave at_set (by simp)
  | leave at_leave => exact on .check at_leave (by simp)
  | wait at_check more => exact on .waiting at_check (by simp)
  | spurious waits => exact on .woken waits (by simp)
  | relock woken lock => exact on .check woken (by simp)
  | unlock at_check nobody => exact on .unlocked at_check (by simp)
  | noTid unlocked none => exact on .draining unlocked (by simp)
  | @joinTid _ t unlocked last => exact on (.joining t) unlocked (by simp)
  | joinLast joining ended => exact on .draining joining (by simp)
  | pend task q draining get =>
    have seven : s.rank = 7 := by rw [ThrdPool.rank, draining]; rfl
    have hearly := h.early (by omega)
    rw [fifo_get get] at hearly
    refine ⟨fun _ => ?_, fun h8 => ?_⟩
    · rw [← List.append_assoc, List.append_assoc _ [task], List.singleton_append]
      exact hearly
    · have hrank : 8 ≤ s.rank := h8
      omega
  | drained q draining get =>
    have seven : s.rank = 7 := by rw [ThrdPool.rank, draining]; rfl
    have hearly := h.early (by omega)
    obtain ⟨hq, -⟩ := fifo_empty get
    rw [hq, List.append_nil] at hearly
    exact ⟨fun h8 => by simp [ThrdPool.rank, goDestroy] at h8, fun _ => hearly⟩
  | free drained => exact on .done drained (by simp)
  | again at_loop on => exact h
  | stop at_loop off => exact h
  | run task q getting get =>
    rename_i a
    have hrank : s.rank < 5 := by
      by_contra h5
      exact hn.not_getting hc (by omega) a getting
    have hearly := h.early (by omega)
    rw [fifo_get get] at hearly
    refine ⟨fun _ => ?_, fun h8 => ?_⟩
    · refine hearly.trans ?_
      simp only [List.append_assoc, List.singleton_append]
      exact List.perm_middle.append_left s.ran
    · have hrank' : 8 ≤ s.rank := h8
      omega
  | noTask q getting get =>
    obtain ⟨hq, hq'⟩ := fifo_empty get
    rw [hq] at h
    rw [hq']
    exact h
  | taskReturns task running idle back => exact h
  | freePool returned nobody => exact h
  | goOn returned more => exact h
  | exit at_lock lock => exact h.goes (by simp [ThrdPool.rank, destroyed_signalTerm])
  | exitUnlock t holds => exact h
  | joinNone joining => exact h
  | joinPrev joining ended => exact h

end

/-! ## The mutex -/

/-- Where the thread is that holds the mutex. -/
def Locked (s : ThrdPool θ) : Prop := ∀ a, s.mutex = some a →
  (∃ b, s.increase a = .created b) ∨ (∃ d, s.destroy = some (a, d) ∧ (d = .nonblock ∨ d = .leave ∨ d = .check)) ∨
    ∃ t, s.work a = .exitUnlock t

section
variable {s s' : ThrdPool θ} {x : PoolAction θ} {a : θ}

theorem Locked.goWork (h : Locked s) (hne : ∀ t, s.work a ≠ .exitUnlock t) (w : PoolWork θ) : Locked (s.goWork a w) := by
  intro b hb
  rcases h b hb with hi | hd | ⟨t, ht⟩
  · exact .inl hi
  · exact .inr (.inl hd)
  · have hba : b ≠ a := by
      rintro rfl
      exact hne t ht
    have hwork : Function.update s.work a w b = .exitUnlock t := by
      rw [Function.update_of_ne hba]
      exact ht
    exact .inr (.inr ⟨t, hwork⟩)

omit [DecidableEq θ] in
theorem Locked.goDestroy (h : Locked s) {d d' : Destroy θ} (hd : s.destroy = some (a, d))
    (stays : d = .nonblock ∨ d = .leave ∨ d = .check → d' = .nonblock ∨ d' = .leave ∨ d' = .check) :
    Locked (s.goDestroy a d') := by
  intro b hb
  rcases h b hb with hi | ⟨e, he, hin⟩ | ht
  · exact .inl hi
  · rw [hd] at he
    cases he
    exact .inr (.inl ⟨d', rfl, stays hin⟩)
  · exact .inr (.inr ht)

/-- **Who holds the mutex is on the way to give it back.** -/
theorem PoolStep.locked (h : Locked s) (step : PoolStep s x s') : Locked s' := by
  cases step with
  | schedule task q alive put => exact h
  | increaseCall calls before =>
    rename_i a
    intro b hb
    rcases h b hb with ⟨c, hc⟩ | hd | ht
    · have hba : b ≠ a := by
        rintro rfl
        rw [calls.1] at hc
        cases hc
      exact .inl ⟨c, (Function.update_of_ne hba _ s.increase).trans hc⟩
    · exact .inr (.inl hd)
    · exact .inr (.inr ht)
  | increaseFail at_lock lock =>
    intro b hb
    have hb' : s.mutex = some b := hb
    rw [lock] at hb'
    cases hb'
  | increaseCreate at_lock lock out new =>
    rename_i a b
    intro c hc
    cases hc
    exact .inl ⟨b, Function.update_self ..⟩
  | increaseCount created => exact fun b hb => by cases hb
  | destroyCall calls before quiet =>
    intro b hb
    rcases h b hb with hi | ⟨d, hd, -⟩ | ht
    · exact .inl hi
    · rw [before] at hd
      cases hd
    · exact .inr (.inr ht)
  | setNonblock q at_lock lock set =>
    intro b hb
    cases hb
    exact .inr (.inl ⟨_, rfl, .inl rfl⟩)
  | setTerminate at_set => exact h.goDestroy at_set (by simp)
  | leave at_leave => exact h.goDestroy at_leave (by simp)
  | wait at_check more => exact fun b hb => by cases hb
  | spurious waits => exact h.goDestroy waits (by simp)
  | relock woken lock =>
    intro b hb
    cases hb
    exact .inr (.inl ⟨_, rfl, .inr (.inr rfl)⟩)
  | unlock at_check nobody => exact fun b hb => by cases hb
  | noTid unlocked none => exact h.goDestroy unlocked (by simp)
  | joinTid unlocked last => exact h.goDestroy unlocked (by simp)
  | joinLast joining ended => exact h.goDestroy joining (by simp)
  | pend task q draining get => exact h
  | drained q draining get => exact h.goDestroy draining (by simp)
  | free drained => exact h.goDestroy drained (by simp)
  | again at_loop on => exact h.goWork (by simp [at_loop]) _
  | stop at_loop off => exact h.goWork (by simp [at_loop]) _
  | run task q getting get => exact h.goWork (by simp [getting]) _
  | noTask q getting get => exact h.goWork (by simp [getting]) _
  | taskReturns task running idle back => exact h.goWork (by simp [running]) _
  | freePool returned nobody => exact h.goWork (by simp [returned]) _
  | goOn returned more => exact h.goWork (by simp [returned]) _
  | exit at_lock lock =>
    intro b hb
    cases hb
    exact .inr (.inr ⟨_, Function.update_self ..⟩)
  | exitUnlock t holds => exact fun b hb => by cases hb
  | joinNone joining => exact h.goWork (by simp [joining]) _
  | joinPrev joining ended => exact h.goWork (by simp [joining]) _

end

/-! ## The thread that is detached -/

/-- It is the thread of the pool that destroys it. -/
def Detached (s : ThrdPool θ) : Prop := ∀ a, s.detached a = true ↔
  s.work a ≠ .outside ∧ ∃ d, s.destroy = some (a, d) ∧ 4 ≤ d.rank

section
variable {s s' : ThrdPool θ} {x : PoolAction θ} {a : θ}

theorem Detached.goWork (h : Detached s) {w : PoolWork θ} (same : w = .outside ↔ s.work a = .outside) :
    Detached (s.goWork a w) := by
  intro b
  have hwork : (s.goWork a w).work b ≠ .outside ↔ s.work b ≠ .outside := by
    show Function.update s.work a w b ≠ .outside ↔ _
    by_cases hba : b = a
    · rw [hba, Function.update_self]
      exact not_congr same
    · rw [Function.update_of_ne hba]
  rw [hwork]
  exact h b

omit [DecidableEq θ] in
theorem Detached.goDestroy (h : Detached s) {d d' : Destroy θ} (hd : s.destroy = some (a, d))
    (four : 4 ≤ d'.rank ↔ 4 ≤ d.rank) : Detached (s.goDestroy a d') := by
  intro b
  refine (h b).trans (and_congr_right fun _ => ?_)
  rw [hd]
  constructor
  · rintro ⟨e, he, h4⟩
    cases he
    exact ⟨d', rfl, four.2 h4⟩
  · rintro ⟨e, he, h4⟩
    cases he
    exact ⟨d, rfl, four.1 h4⟩

theorem PoolStep.detached (hc : Calling s.work s.increase s.destroy) (h : Detached s) (step : PoolStep s x s') :
    Detached s' := by
  cases step with
  | schedule task q alive put => exact h
  | increaseCall calls before => exact h
  | increaseFail at_lock lock => exact h
  | increaseCreate at_lock lock out new =>
    rename_i a b
    have before : s.destroy = none := hc.before a (by rw [at_lock]; simp)
    have none_of (P : Prop) (c : θ) : ¬ (P ∧ ∃ d, s.destroy = some (c, d) ∧ 4 ≤ d.rank) := by
      rintro ⟨-, d, hd, -⟩
      rw [before] at hd
      cases hd
    exact fun c => iff_of_false (fun hd => none_of _ c ((h c).1 hd)) (none_of _ c)
  | increaseCount created => exact h
  | destroyCall calls before quiet =>
    intro b
    refine (h b).trans (and_congr_right fun _ => iff_of_false ?_ ?_)
    · rintro ⟨d, hd, -⟩
      rw [before] at hd
      cases hd
    · rintro ⟨d, hd, h4⟩
      cases hd
      simp at h4
  | setNonblock q at_lock lock set => exact h.goDestroy at_lock (by simp)
  | setTerminate at_set => exact h.goDestroy at_set (by simp)
  | leave at_leave =>
    rename_i a
    intro b
    have before : s.detached b = false := by
      rw [← Bool.not_eq_true, h b, at_leave]
      rintro ⟨-, d, hd, h4⟩
      cases hd
      simp at h4
    by_cases hba : b = a
    · subst hba
      simp only [goDestroy]
      by_cases hp : s.inPool b = true
      · rw [if_pos hp, Function.update_self]
        exact iff_of_true rfl ⟨inPool_iff.1 hp, _, rfl, by simp⟩
      · rw [if_neg hp, before]
        exact iff_of_false (by simp) fun hw => hp (inPool_iff.2 hw.1)
    · have same : (if s.inPool a then Function.update s.detached a true else s.detached) b = s.detached b := by
        split
        · rw [Function.update_of_ne hba]
        · rfl
      simp only [goDestroy]
      rw [same, before]
      refine iff_of_false (by simp) ?_
      rintro ⟨-, d, hd, -⟩
      cases hd
      exact hba rfl
  | wait at_check more => exact h.goDestroy at_check (by simp)
  | spurious waits => exact h.goDestroy waits (by simp)
  | relock woken lock => exact h.goDestroy woken (by simp)
  | unlock at_check nobody => exact h.goDestroy at_check (by simp)
  | noTid unlocked none => exact h.goDestroy unlocked (by simp)
  | joinTid unlocked last => exact h.goDestroy unlocked (by simp)
  | joinLast joining ended => exact h.goDestroy joining (by simp)
  | pend task q draining get => exact h
  | drained q draining get => exact h.goDestroy draining (by simp)
  | free drained => exact h.goDestroy drained (by simp)
  | again at_loop on => exact h.goWork (by simp [at_loop])
  | stop at_loop off => exact h.goWork (by simp [at_loop])
  | run task q getting get => exact h.goWork (by simp [getting])
  | noTask q getting get => exact h.goWork (by simp [getting])
  | taskReturns task running idle back => exact h.goWork (by simp [running])
  | freePool returned nobody => exact h.goWork (by simp [returned])
  | goOn returned more => exact h.goWork (by simp [returned])
  | exit at_lock lock =>
    rename_i a
    have moved : Detached (s.goWork a (.exitUnlock s.tid)) := h.goWork (by simp [at_lock])
    intro b
    have hb := moved b
    rcases signalTerm_cases s.destroy (s.nthreads - 1) with e | ⟨c, hc', e⟩
    · simp only [e]
      exact hb
    · simp only [e]
      have woken : Detached ((s.goWork a (.exitUnlock s.tid)).goDestroy c .woken) := moved.goDestroy hc' (by simp)
      exact woken b
  | exitUnlock t holds => exact h.goWork (by simp [holds])
  | joinNone joining => exact h.goWork (by simp [joining])
  | joinPrev joining ended => exact h.goWork (by simp [joining])

end

/-! ## Every run -/

structure PoolOk (s : ThrdPool θ) : Prop where
  calling : Calling s.work s.increase s.destroy
  flags : Flags s.work s.destroy s.terminate s.queue.2
  counts : ∃ C, Counts s.work s.increase s.destroy s.nthreads C
  chain : ∃ X, JoinChain s.work s.joined s.tid s.destroy X
  frees : Frees s.work s.destroy s.freed
  tasks : Tasks s.rank s.queue.1 s.scheduled s.ran s.pended
  locked : Locked s
  detached : Detached s

section
variable {s s' : ThrdPool θ} {x : PoolAction θ} {a : θ}

omit [DecidableEq θ] in
theorem PoolOk.nobody (h : PoolOk s) (h5 : 5 ≤ s.rank) : s.nthreads = 0 := by
  obtain ⟨C, hC⟩ := h.counts
  rw [hC.card, hC.ended h5, Finset.card_empty]

/-- **A step keeps it all, when nobody takes the pool for destroyed that is not.** -/
theorem PoolStep.ok (h : PoolOk s) (counted : x.Counted s) (step : PoolStep s x s') : PoolOk s' := by
  obtain ⟨C, hC⟩ := h.counts
  obtain ⟨X, hX⟩ := h.chain
  exact {
    calling := step.calling h.calling h.nobody
    flags := step.flags h.flags
    counts := step.counts h.calling h.flags hC counted
    chain := step.chain h.calling h.flags hC hX counted
    frees := step.frees h.calling h.frees counted
    tasks := step.tasks h.calling hC h.tasks
    locked := step.locked h.locked
    detached := step.detached h.calling h.detached }

omit [DecidableEq θ] in
theorem ThrdPool.Init.ok (h : s.Init) : PoolOk s := by
  obtain ⟨threads, hn, hwork⟩ := h.nthreads
  have hbusy : ∀ a b, s.increase a ≠ .created b := fun a b e => by
    rw [h.increase a] at e
    cases e
  have hdestroy : ∀ a d, s.destroy ≠ some (a, d) := fun a d e => by
    rw [h.destroy] at e
    cases e
  have hactive : ∀ a, (s.work a).active = true ↔ a ∈ threads := fun a => by
    rcases hwork a with ⟨hw, ha⟩ | ⟨hw, ha⟩ <;> rw [hw]
    · exact iff_of_false (fun e => by cases e) ha
    · exact iff_of_true rfl ha
  have hrank : s.rank = 0 := by rw [ThrdPool.rank, h.destroy]; rfl
  have hqueue : s.queue.1 = [] ∧ s.queue.2 = false := by
    rw [h.queue]
    exact ⟨rfl, rfl⟩
  exact {
    calling := ⟨fun a ha => absurd (h.increase a) ha, fun a ha => absurd (h.increase a) ha,
      fun a d hd => absurd hd (hdestroy a d)⟩
    flags := by
      refine ⟨?_, ?_, fun a ha => ?_⟩
      · rw [h.terminate, h.destroy]
        simp
      · rw [hqueue.2, h.destroy]
        simp
      · rcases hwork a with ⟨hw, -⟩ | ⟨hw, -⟩ <;> rw [hw] at ha <;> cases ha
    counts := by
      refine ⟨threads, hn, fun a => (hactive a).2, fun a ha => .inl ((hactive a).1 ha), fun a b hb => absurd hb (hbusy a b),
        fun a b c hb => absurd hb (hbusy a c), fun a d hd => absurd hd (hdestroy a d), fun h5 => ?_,
        fun a hd => absurd hd (hdestroy a _)⟩
      rw [h.destroy] at h5
      simp at h5
    chain := by
      refine ⟨[], List.nodup_nil, fun a => ?_, h.tid, trivial, fun a _ => h.joined a, fun a ha => (by cases ha),
        fun a t hd => absurd hd (hdestroy a _), fun _ a ha => (by cases ha)⟩
      refine iff_of_false (by simp) fun ha => ?_
      rcases hwork a with ⟨hw, -⟩ | ⟨hw, -⟩ <;> rw [hw] at ha <;> cases ha.1
    frees := ⟨fun _ => h.freed, fun a hd => absurd hd (hdestroy a _)⟩
    tasks := by
      rw [h.scheduled, h.ran, h.pended, hqueue.1]
      exact ⟨fun _ => .refl _, fun _ => .refl _⟩
    locked := fun a ha => by
      rw [h.mutex] at ha
      cases ha
    detached := fun a => by
      rw [h.detached a]
      refine iff_of_false (by simp) ?_
      rintro ⟨-, d, hd, -⟩
      exact hdestroy a d hd }

/-! ## Somebody goes on -/

/-- A thread of the pool, or the one that destroys it, can take a step. -/
def CanGo (s : ThrdPool θ) : Prop := ∃ a s', PoolStep s (.destroy a) s' ∨ PoolStep s (.work a) s'

/-- Nothing is left to do. -/
def Over (s : ThrdPool θ) : Prop := (∃ a, s.destroy = some (a, .done)) ∧ (∀ a, (s.work a).gone = true) ∧ s.freed = 1

/-- Who holds the mutex goes on. -/
theorem PoolOk.holder_goes (h : PoolOk s) (begun : s.destroy ≠ none) (hm : s.mutex = some a) : CanGo s := by
  rcases h.locked a hm with ⟨b, hb⟩ | ⟨d, hd, rfl | rfl | rfl⟩ | ⟨t, ht⟩
  · rw [h.calling.quiet begun a] at hb
    cases hb
  · exact ⟨a, _, .inl (.setTerminate hd)⟩
  · exact ⟨a, _, .inl (.leave hd)⟩
  · by_cases hn : s.nthreads = 0
    · exact ⟨a, _, .inl (.unlock hd hn)⟩
    · exact ⟨a, _, .inl (.wait hd (Nat.pos_of_ne_zero hn))⟩
  · exact ⟨a, _, .inr (.exitUnlock t ht)⟩

/-- Where somebody waits for the mutex, somebody goes on. -/
theorem PoolOk.lock_goes (h : PoolOk s) (begun : s.destroy ≠ none) (free : s.mutex = none → CanGo s) : CanGo s := by
  cases hm : s.mutex with
  | none => exact free hm
  | some a => exact h.holder_goes begun hm

/-- A queue in non-blocking mode always answers a get. -/
theorem fifo_answers (q : List Int) : (∃ task q', fifo (q, true) (.get task) = some q') ∨
    ∃ q', fifo (q, true) .empty = some q' := by
  cases q with
  | nil => exact .inr ⟨_, rfl⟩
  | cons task q => exact .inl ⟨task, (q, true), by rw [fifo, if_pos rfl]⟩

/-- A thread that has not exited, and does not destroy the pool, goes on. -/
theorem PoolOk.active_goes (h : PoolOk s) (two : 2 ≤ s.rank) (ha : (s.work a).active = true)
    (back : ∀ d, s.destroy = some (a, d) → d = .done) : CanGo s := by
  have begun : s.destroy ≠ none := by
    intro e
    rw [ThrdPool.rank, e] at two
    simp at two
  have hqueue : s.queue = (s.queue.1, true) := Prod.ext rfl (h.flags.nonblock.2 two)
  cases hw : s.work a with
  | loop =>
    cases ht : s.terminate with
    | false => exact ⟨a, _, .inr (.again hw ht)⟩
    | true => exact ⟨a, _, .inr (.stop hw ht)⟩
  | getting =>
    rcases fifo_answers s.queue.1 with ⟨task, q', hq⟩ | ⟨q', hq⟩ <;> rw [← hqueue] at hq
    · exact ⟨a, _, .inr (.run task q' hw hq)⟩
    · exact ⟨a, _, .inr (.noTask q' hw hq)⟩
  | running task => exact ⟨a, _, .inr (.taskReturns task hw (h.calling.quiet begun a) back)⟩
  | returned =>
    by_cases hn : s.nthreads = 0
    · exact ⟨a, _, .inr (.freePool hw hn)⟩
    · exact ⟨a, _, .inr (.goOn hw hn)⟩
  | exitLock => exact h.lock_goes begun fun hm => ⟨a, _, .inr (.exit hw hm)⟩
  | _ =>
    rw [hw] at ha
    cases ha

/-- As long as somebody in the chain is not finished, somebody goes on. -/
theorem PoolOk.chain_goes {X : List θ} (hX : JoinChain s.work s.joined s.tid s.destroy X) (ha : a ∈ X)
    (hw : s.work a ≠ .finished) : CanGo s := by
  rcases hX.linked.moves fun b hb => ((hX.mem b).1 hb).1 with all | ⟨b, -, ⟨t, ht⟩ | ⟨t, ht, ended⟩⟩
  · exact absurd (all a ha) hw
  · exact ⟨b, _, .inr (.exitUnlock t ht)⟩
  · cases t with
    | none => exact ⟨b, _, .inr (.joinNone ht)⟩
    | some c => exact ⟨b, _, .inr (.joinPrev ht (ended c rfl))⟩

omit [DecidableEq θ] in
theorem PoolWork.places (w : PoolWork θ) : w = .outside ∨ w.active = true ∨ w.exits = true := by
  cases w with
  | outside => exact .inl rfl
  | loop => exact .inr (.inl rfl)
  | getting => exact .inr (.inl rfl)
  | running task => exact .inr (.inl rfl)
  | returned => exact .inr (.inl rfl)
  | exitLock => exact .inr (.inl rfl)
  | exitUnlock t => exact .inr (.inr rfl)
  | joining t => exact .inr (.inr rfl)
  | finished => exact .inr (.inr rfl)

/-- **Once the last one is joined, all are.** -/
theorem PoolOk.all_joined (h : PoolOk s) (seven : 7 ≤ s.rank) (inside : s.work a ≠ .outside)
    (other : ∀ d, s.destroy ≠ some (a, d)) : s.joined a = 1 ∧ s.work a = .finished := by
  obtain ⟨C, hC⟩ := h.counts
  obtain ⟨X, hX⟩ := h.chain
  rcases (s.work a).places with hw | hw | hw
  · exact absurd hw inside
  · obtain ⟨d, hd⟩ := hC.ended_active h.calling (by omega) hw
    exact absurd hd (other d)
  · have ha : a ∈ X := (hX.mem a).2 ⟨hw, other⟩
    cases X with
    | nil => cases ha
    | cons c l =>
      have hc := hX.finished seven c rfl
      rcases List.mem_cons.1 ha with rfl | ha
      · refine ⟨?_, hc⟩
        rw [hX.first a rfl]
        exact if_pos seven
      · exact hX.linked.done hc a ha

/-- **Until all is done, somebody goes on.** -/
theorem PoolOk.goes (h : PoolOk s) (begun : s.destroy ≠ none) : Over s ∨ CanGo s := by
  obtain ⟨C, hC⟩ := h.counts
  obtain ⟨X, hX⟩ := h.chain
  obtain ⟨⟨a, d⟩, hd⟩ := Option.ne_none_iff_exists'.1 begun
  have hrank : s.rank = d.rank := by rw [ThrdPool.rank, hd]; rfl
  cases d with
  | locking => exact .inr (h.lock_goes begun fun hm => ⟨a, _, .inl (.setNonblock _ hd hm rfl)⟩)
  | nonblock => exact .inr ⟨a, _, .inl (.setTerminate hd)⟩
  | leave => exact .inr ⟨a, _, .inl (.leave hd)⟩
  | check =>
    by_cases hn : s.nthreads = 0
    · exact .inr ⟨a, _, .inl (.unlock hd hn)⟩
    · exact .inr ⟨a, _, .inl (.wait hd (Nat.pos_of_ne_zero hn))⟩
  | waiting =>
    obtain ⟨b, hb⟩ := Finset.nonempty_iff_ne_empty.2 (hC.sleeping a hd)
    refine .inr (h.active_goes (by rw [hrank]; simp) (hC.active b hb) fun e he => ?_)
    rw [hd] at he
    cases he
    exact absurd hb (hC.gone a _ hd (by simp))
  | woken => exact .inr (h.lock_goes begun fun hm => ⟨a, _, .inl (.relock hd hm)⟩)
  | unlocked =>
    cases ht : s.tid with
    | none => exact .inr ⟨a, _, .inl (.noTid hd ht)⟩
    | some t => exact .inr ⟨a, _, .inl (.joinTid hd ht)⟩
  | joining t =>
    by_cases hw : s.work t = .finished
    · exact .inr ⟨a, _, .inl (.joinLast hd hw)⟩
    · exact .inr (PoolOk.chain_goes hX (List.mem_of_head? (hX.last a t hd)) hw)
  | draining =>
    have hqueue : s.queue = (s.queue.1, true) :=
      Prod.ext rfl (h.flags.nonblock.2 (by rw [hd]; simp))
    rcases fifo_answers s.queue.1 with ⟨task, q', hq⟩ | ⟨q', hq⟩ <;> rw [← hqueue] at hq
    · exact .inr ⟨a, _, .inl (.pend task q' hd hq)⟩
    · exact .inr ⟨a, _, .inl (.drained q' hd hq)⟩
  | drained => exact .inr ⟨a, _, .inl (.free hd)⟩
  | done =>
    have others : ∀ b, b ≠ a → (s.work b).gone = true := fun b hb => by
      by_cases hout : s.work b = .outside
      · rw [hout]; rfl
      · rw [(h.all_joined (by rw [hrank]; simp) hout fun d hd' => ?_).2]
        · rfl
        · rw [hd] at hd'
          cases hd'
          exact hb rfl
    by_cases hgone : (s.work a).gone = true
    · refine .inl ⟨⟨a, hd⟩, fun b => ?_, ?_⟩
      · by_cases hb : b = a
        · rw [hb]
          exact hgone
        · exact others b hb
      · rw [h.frees.late a hd, if_pos hgone]
    · refine .inr (h.active_goes (a := a) (by rw [hrank]; simp) ?_ fun d hd' => ?_)
      · rcases h.calling.destroying a _ hd with hw | ⟨-, hw⟩
        · refine PoolWork.active_of_calls hw fun e => hgone ?_
          rw [e]; rfl
        · cases hwork : s.work a with
          | returned => rfl
          | finished =>
            rw [hwork] at hgone
            exact absurd rfl hgone
          | _ =>
            rw [hwork] at hw
            cases hw
      · rw [hd] at hd'
        cases hd'
        rfl

/-! ## What it comes to -/

/-- **What becomes of the threads, the pool and its tasks**: a thread is joined at most once and when it has finished, the
one that destroys the pool never, and when it has joined the last one all are joined; the pool is freed when nobody is
in it any more; a task scheduled in time is queued, or was run, or passed on; and somebody can go on until it is over. -/
structure PoolContract (s : ThrdPool θ) : Prop where
  joined : ∀ a, s.joined a = 0 ∨ s.joined a = 1 ∧ s.work a = .finished
  destroying : ∀ a d, s.destroy = some (a, d) → s.joined a = 0
  detached : ∀ a, s.detached a = true ↔ s.work a ≠ .outside ∧ ∃ d, s.destroy = some (a, d) ∧ 4 ≤ d.rank
  all_joined : 7 ≤ s.rank → ∀ a, s.work a ≠ .outside → (∀ d, s.destroy ≠ some (a, d)) → s.joined a = 1
  freed : s.freed = 0 ∨ Over s
  queued : s.rank < 8 → s.scheduled.Perm (s.ran ++ s.pended ++ s.queue.1)
  taken : 8 ≤ s.rank → s.scheduled.Perm (s.ran ++ s.pended)
  goes : s.destroy ≠ none → Over s ∨ CanGo s

theorem PoolOk.joined (h : PoolOk s) (a : θ) : s.joined a = 0 ∨ s.joined a = 1 ∧ s.work a = .finished := by
  obtain ⟨X, hX⟩ := h.chain
  by_cases ha : a ∈ X
  · cases X with
    | nil => cases ha
    | cons c l =>
      rcases List.mem_cons.1 ha with rfl | ha
      · by_cases seven : 7 ≤ s.rank
        · exact .inr ⟨(hX.first a rfl).trans (if_pos seven), hX.finished seven a rfl⟩
        · exact .inl ((hX.first a rfl).trans (if_neg seven))
      · exact hX.linked.joined_le (fun b hb => ((hX.mem b).1 hb).1) a ha
  · exact .inl (hX.unjoined a ha)

theorem PoolOk.freed (h : PoolOk s) : s.freed = 0 ∨ Over s := by
  by_cases late : s.rank < 9
  · exact .inl (h.frees.early late)
  · cases hd : s.destroy with
    | none =>
      rw [ThrdPool.rank, hd] at late
      exact absurd (by simp) late
    | some p =>
      obtain ⟨a, d⟩ := p
      have hdone : d = .done := by
        rw [ThrdPool.rank, hd] at late
        cases d <;> first | rfl | exact absurd (by simp) late
      subst hdone
      have hfreed := h.frees.late a hd
      by_cases hgone : (s.work a).gone = true
      · rw [if_pos hgone] at hfreed
        refine .inr ⟨⟨a, hd⟩, fun b => ?_, hfreed⟩
        by_cases hba : b = a
        · rw [hba]
          exact hgone
        by_cases hout : s.work b = .outside
        · rw [hout]; rfl
        · rw [(h.all_joined (by omega) hout fun e he => ?_).2]
          · rfl
          · rw [hd] at he
            cases he
            exact hba rfl
      · rw [if_neg hgone] at hfreed
        exact .inl hfreed

theorem PoolOk.sound (h : PoolOk s) : PoolContract s where
  joined := h.joined
  destroying := fun a d hd => by
    obtain ⟨X, hX⟩ := h.chain
    exact hX.unjoined a fun ha => ((hX.mem a).1 ha).2 d hd
  detached := h.detached
  all_joined := fun seven a inside other => (h.all_joined seven inside other).1
  freed := h.freed
  queued := h.tasks.early
  taken := h.tasks.late
  goes := h.goes

/-- **A pool is destroyed as its contract says, in every run in which no worker takes it for destroyed that is not.** -/
theorem pool_destroyed {s₀ s : ThrdPool θ} (init : s₀.Init) (run : Reaches PoolStep (fun s x => x.Counted s) s₀ s) :
    PoolContract s :=
  (run.keeps (fun _ _ _ h counted step => step.ok h counted) init.ok).sound

/-- A thread back from a task finds nobody counted in a pool whose threads have not begun to leave only if there never was
one. -/
theorem PoolOk.counted (h : PoolOk s) (pos : s.rank < 2 → 0 < s.nthreads) (x : PoolAction θ) : x.Counted s := by
  cases x with
  | work a =>
    intro returned nobody
    obtain ⟨C, hC⟩ := h.counts
    have two : 2 ≤ s.rank := by
      by_contra hr
      have := pos (by omega)
      omega
    have empty : C = ∅ := by rw [← Finset.card_eq_zero, ← hC.card, nobody]
    rcases hC.cover a (by rw [returned]; rfl) with ha | ⟨b, hb⟩ | ⟨d, hd, -⟩
    · rw [empty] at ha
      simp at ha
    · rw [h.calling.begun (by omega) b] at hb
      cases hb
    · rcases h.calling.destroying a d hd with hw | ⟨rfl, -⟩
      · rw [returned] at hw
        cases hw
      · exact hd
  | _ => trivial

/-- Before the threads leave, nobody is taken off the count. -/
theorem PoolStep.counting (hf : Flags s.work s.destroy s.terminate s.queue.2) (pos : s.rank < 2 → 0 < s.nthreads)
    (step : PoolStep s x s') : s'.rank < 2 → 0 < s'.nthreads := by
  cases step with
  | increaseCount created => exact fun _ => Nat.succ_pos _
  | destroyCall calls before quiet => exact fun _ => pos (by simp [ThrdPool.rank, before])
  | setNonblock q at_lock lock set => exact fun h2 => by simp [ThrdPool.rank, goDestroy] at h2
  | setTerminate at_set => exact fun h2 => by simp [ThrdPool.rank] at h2
  | leave at_leave => exact fun h2 => by simp [ThrdPool.rank, goDestroy] at h2
  | wait at_check more => exact fun h2 => by simp [ThrdPool.rank, goDestroy] at h2
  | spurious waits => exact fun h2 => by simp [ThrdPool.rank] at h2
  | relock woken lock => exact fun h2 => by simp [ThrdPool.rank, goDestroy] at h2
  | unlock at_check nobody => exact fun h2 => by simp [ThrdPool.rank, goDestroy] at h2
  | noTid unlocked none => exact fun h2 => by simp [ThrdPool.rank] at h2
  | joinTid unlocked last => exact fun h2 => by simp [ThrdPool.rank] at h2
  | joinLast joining ended => exact fun h2 => by simp [ThrdPool.rank, goDestroy, ThrdPool.join] at h2
  | drained q draining get => exact fun h2 => by simp [ThrdPool.rank, goDestroy] at h2
  | free drained => exact fun h2 => by simp [ThrdPool.rank, goDestroy] at h2
  | exit at_lock lock =>
    intro h2
    have two : 2 ≤ s.rank := hf.leaving _ at_lock
    have same : destroyed (if s.nthreads - 1 = 0 then signalTerm s.destroy else s.destroy) = s.rank :=
      destroyed_signalTerm s.destroy _
    simp only [ThrdPool.rank] at h2
    omega
  | _ => exact pos

/-- **In a pool created with a thread, none is ever taken for destroyed that is not.** -/
theorem ThrdPool.Init.counted {s₀ s : ThrdPool θ} (init : s₀.Init) (created : 0 < s₀.nthreads)
    (run : Reaches PoolStep always s₀ s) : Reaches PoolStep (fun s x => x.Counted s) s₀ s := by
  have hall : Reaches PoolStep (fun s x => x.Counted s) s₀ s ∧ PoolOk s ∧ (s.rank < 2 → 0 < s.nthreads) := by
    induction run with
    | start => exact ⟨.start, init.ok, fun _ => created⟩
    | @next _ _ x _ _ taken ih =>
      obtain ⟨before, ok, pos⟩ := ih
      have counted := ok.counted pos x
      exact ⟨before.next counted taken, taken.ok ok counted, taken.counting ok.flags pos⟩
  exact hall.1

/-- **A pool created with a thread is destroyed as its contract says, in every run.** -/
theorem pool_destroyed_created {s₀ s : ThrdPool θ} (init : s₀.Init) (created : 0 < s₀.nthreads)
    (run : Reaches PoolStep always s₀ s) : PoolContract s :=
  ((init.counted created run).keeps (fun _ _ _ h counted step => step.ok h counted) init.ok).sound

end

/-! ## Two runs -/

/-- What `thrdpool_create` makes, for a thread outside the pool and another that may be in it. -/
def newPool (inside : Bool) : ThrdPool Bool where
  queue := ([], false)
  nthreads := if inside then 1 else 0
  tid := none
  mutex := none
  terminate := false
  work := fun a => if a && inside then .loop else .outside
  increase := fun _ => .idle
  destroy := none
  detached := fun _ => false
  joined := fun _ => 0
  freed := 0
  scheduled := []
  ran := []
  pended := []

theorem newPool_init (inside : Bool) : (newPool inside).Init where
  queue := rfl
  nthreads := by
    cases inside with
    | false => exact ⟨∅, rfl, by decide⟩
    | true => exact ⟨{true}, rfl, by decide⟩
  tid := rfl
  mutex := rfl
  terminate := rfl
  increase := fun _ => rfl
  destroy := rfl
  detached := fun _ => rfl
  joined := fun _ => rfl
  freed := rfl
  scheduled := rfl
  ran := rfl
  pended := rfl

/-- A pool of one thread, destroyed from outside while it runs a task: the thread is joined, then the pool freed. -/
theorem pool_destroyed_outside :
    ∃ s : ThrdPool Bool, s.ran = [7] ∧ s.joined true = 1 ∧ s.freed = 1 ∧ PoolContract s := by
  have r₀ : Reaches PoolStep always (newPool true) (newPool true) := .start
  have r₁ := r₀.next trivial (PoolStep.schedule 7 _ (by decide) rfl)
  have r₂ := r₁.next trivial (PoolStep.again (a := true) rfl rfl)
  have r₃ := r₂.next trivial (PoolStep.run (a := true) 7 _ rfl rfl)
  have r₄ := r₃.next trivial (PoolStep.destroyCall (a := false) ⟨rfl, .inl rfl⟩ rfl fun _ => rfl)
  have r₅ := r₄.next trivial (PoolStep.setNonblock (a := false) _ rfl rfl rfl)
  have r₆ := r₅.next trivial (PoolStep.setTerminate (a := false) rfl)
  have r₇ := r₆.next trivial (PoolStep.leave (a := false) rfl)
  have r₈ := r₇.next trivial (PoolStep.wait (a := false) rfl (by decide))
  have r₉ := r₈.next trivial (PoolStep.taskReturns (a := true) 7 rfl rfl fun d hd => by cases hd)
  have r₁₀ := r₉.next trivial (PoolStep.goOn (a := true) rfl (by decide))
  have r₁₁ := r₁₀.next trivial (PoolStep.stop (a := true) rfl rfl)
  have r₁₂ := r₁₁.next trivial (PoolStep.exit (a := true) rfl rfl)
  have r₁₃ := r₁₂.next trivial (PoolStep.exitUnlock (a := true) none rfl)
  have r₁₄ := r₁₃.next trivial (PoolStep.joinNone (a := true) rfl)
  have r₁₅ := r₁₄.next trivial (PoolStep.relock (a := false) rfl rfl)
  have r₁₆ := r₁₅.next trivial (PoolStep.unlock (a := false) rfl rfl)
  have r₁₇ := r₁₆.next trivial (PoolStep.joinTid (a := false) (t := true) rfl rfl)
  have r₁₈ := r₁₇.next trivial (PoolStep.joinLast (a := false) (t := true) rfl rfl)
  have r₁₉ := r₁₈.next trivial (PoolStep.drained (a := false) _ rfl rfl)
  have r₂₀ := r₁₉.next trivial (PoolStep.free (a := false) rfl)
  exact ⟨_, rfl, rfl, rfl, pool_destroyed (newPool_init true) ((newPool_init true).counted (by decide) r₂₀)⟩

/-- **A pool created with no thread, freed under the thread that increases it**: the thread created runs the task that was
waiting before it is counted, finds `nthreads` at zero, and frees a pool that nobody has destroyed. -/
theorem pool_freed_early : ∃ s : ThrdPool Bool, Reaches PoolStep always (newPool false) s ∧ s.freed = 1 ∧
    s.destroy = none ∧ s.increase false = .created true ∧ ¬ PoolContract s := by
  have r₀ : Reaches PoolStep always (newPool false) (newPool false) := .start
  have r₁ := r₀.next trivial (PoolStep.schedule 7 _ (by decide) rfl)
  have r₂ := r₁.next trivial (PoolStep.increaseCall (a := false) ⟨rfl, .inl rfl⟩ rfl)
  have r₃ := r₂.next trivial (PoolStep.increaseCreate (a := false) (b := true) rfl rfl rfl rfl)
  have r₄ := r₃.next trivial (PoolStep.again (a := true) rfl rfl)
  have r₅ := r₄.next trivial (PoolStep.run (a := true) 7 _ rfl rfl)
  have r₆ := r₅.next trivial (PoolStep.taskReturns (a := true) 7 rfl rfl fun d hd => by cases hd)
  have r₇ := r₆.next trivial (PoolStep.freePool (a := true) rfl rfl)
  refine ⟨_, r₇, rfl, rfl, rfl, fun h => ?_⟩
  rcases h.freed with h0 | ⟨⟨a, ha⟩, -, -⟩
  · cases h0
  · cases ha

end Tinywf
