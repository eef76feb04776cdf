import Tinywf.Loop
import Tinywf.Ring
import Tinywf.Workflow
/-!
# SeriesQueue — the queue of a series

The tasks of a `SeriesWork` stand in a circular buffer, four slots in the object at first, that `expand_queue` copies to
one of twice the size as soon as it is full.  `SeriesRing` is the object as it stands; under the list of tasks it holds it
is a `SeriesWork` (`SeriesRing.Refines`), which every operation keeps (`exec_refines`).  Sizes and indices are integers, as
`int` is up to 2^30 slots: the next doubling of `queue_size` would overflow.
-/
namespace Tinywf

open Loop Ring

variable {τ : Type*}

/-- A slot not written yet holds nothing. -/
structure SeriesRing (τ : Type*) where
  queue : Int → Option τ
  queueSize : Int
  front : Int
  back : Int
  last : Option τ
  canceled : Bool
  finished : Bool

/-- The variables of the loop in `expand_queue`. -/
structure Expanding (τ : Type*) where
  queue : Int → Option τ
  i : Int
  j : Int

namespace SeriesRing

/-- `SeriesWork::SeriesWork` -/
def new : SeriesRing τ where
  queue := fun _ => none
  queueSize := 4
  front := 0
  back := 0
  last := none
  canceled := false
  finished := false

/-- `queue[i++] = this->queue[j++]`, round the end, `while (j != this->back)`. -/
def copy (r : SeriesRing τ) (v : Expanding τ) : Pass (Expanding τ) Unit :=
  let j := if v.j + 1 = r.queueSize then 0 else v.j + 1
  let v' : Expanding τ := { queue := Function.update v.queue v.i (r.queue v.j), i := v.i + 1, j := j }
  if j ≠ r.back then .again v' else .exit () v'

/-- `none` would be a loop that does not end in as many passes as there are slots. -/
def expandQueue (r : SeriesRing τ) : Option (SeriesRing τ) :=
  (doWhile r.copy r.queueSize.toNat { queue := fun _ => none, i := 0, j := r.front }).map fun x =>
    { r with queue := x.2.queue, queueSize := 2 * r.queueSize, front := 0, back := x.2.i }

def pushFront (r : SeriesRing τ) (task : τ) : Option (SeriesRing τ) :=
  let front := if r.front - 1 = -1 then r.queueSize - 1 else r.front - 1
  let r' := { r with queue := Function.update r.queue front (some task), front := front }
  if r'.front = r'.back then r'.expandQueue else some r'

def pushBack (r : SeriesRing τ) (task : τ) : Option (SeriesRing τ) :=
  let back := if r.back + 1 = r.queueSize then 0 else r.back + 1
  let r' := { r with queue := Function.update r.queue r.back (some task), back := back }
  if r'.front = r'.back then r'.expandQueue else some r'

def popTask (r : SeriesRing τ) : Option τ × SeriesRing τ :=
  if r.front ≠ r.back then
    (r.queue r.front, { r with front := if r.front + 1 = r.queueSize then 0 else r.front + 1 })
  else match r.last with
    | some t => (some t, { r with last := none })
    | none => (none, { r with finished := true })

end SeriesRing

/-! ## Sequences of operations -/

inductive SeriesOp (τ : Type*) where
  | pushFront (task : τ)
  | pushBack (task : τ)
  | popTask
  | setLastTask (last : τ)
  | unsetLastTask

/-- An operation, with what `pop_task` returned. -/
def SeriesRing.exec (r : SeriesRing τ) : SeriesOp τ → Option (Option τ × SeriesRing τ)
  | .pushFront task => (r.pushFront task).map fun r => (none, r)
  | .pushBack task => (r.pushBack task).map fun r => (none, r)
  | .popTask => some r.popTask
  | .setLastTask last => some (none, { r with last := some last })
  | .unsetLastTask => some (none, { r with last := none })

def SeriesRing.run (r : SeriesRing τ) : List (SeriesOp τ) → Option (List (Option τ) × SeriesRing τ)
  | [] => some ([], r)
  | op :: ops => (r.exec op).bind fun x => (x.2.run ops).map fun y => (x.1 :: y.1, y.2)

namespace SeriesWork

def new : SeriesWork τ := { queue := [], last := none, canceled := false, finished := false }

/-- **What the operations do to the tasks in line.** -/
def exec (w : SeriesWork τ) : SeriesOp τ → Option τ × SeriesWork τ
  | .pushFront task => (none, { w with queue := task :: w.queue })
  | .pushBack task => (none, { w with queue := w.queue ++ [task] })
  | .popTask => w.popTask
  | .setLastTask last => (none, { w with last := some last })
  | .unsetLastTask => (none, { w with last := none })

def run (w : SeriesWork τ) : List (SeriesOp τ) → List (Option τ) × SeriesWork τ
  | [] => ([], w)
  | op :: ops => ((w.exec op).1 :: ((w.exec op).2.run ops).1, ((w.exec op).2.run ops).2)

end SeriesWork

namespace SeriesRing

variable {r : SeriesRing τ} {w : SeriesWork τ} {l : List τ}

/-- The tasks in the buffer. -/
def Line (r : SeriesRing τ) (l : List τ) : Prop := Ring.Holds r.queue r.queueSize r.front r.back l

/-- **The object stands for a series**, its buffer not full. -/
structure Refines (r : SeriesRing τ) (w : SeriesWork τ) : Prop where
  line : r.Line w.queue
  room : (w.queue.length : Int) < r.queueSize
  last : r.last = w.last
  canceled : r.canceled = w.canceled
  finished : r.finished = w.finished

theorem new_refines : (new : SeriesRing τ).Refines SeriesWork.new :=
  ⟨Ring.Holds.empty _ (by simp [new]), by simp [new, SeriesWork.new], rfl, rfl, rfl⟩

/-! ## `expand_queue` -/

/-- The slots copied so far. -/
structure Copied (r : SeriesRing τ) (v : Expanding τ) : Prop where
  nonneg : 0 ≤ v.i
  lt : v.i < r.queueSize
  place : v.j = slot r.queueSize r.front v.i.toNat
  same : ∀ k : Nat, (k : Int) < v.i → v.queue k = r.queue (slot r.queueSize r.front k)

/-- One pass: on to the next slot, unless that was the last. -/
theorem Copied.pass (line : r.Line l) (full : (l.length : Int) = r.queueSize) {v : Expanding τ} (h : r.Copied v) :
    ∃ v' : Expanding τ, v'.i = v.i + 1 ∧
      (∀ k : Nat, (k : Int) < v'.i → v'.queue k = r.queue (slot r.queueSize r.front k)) ∧
      ((r.copy v = .again v' ∧ r.Copied v') ∨ (r.copy v = .exit () v' ∧ v'.i = r.queueSize)) := by
  obtain ⟨hnonneg, hlt, hplace, hsame⟩ := h
  have hto : ((v.i.toNat : Nat) : Int) = v.i := Int.toNat_of_nonneg hnonneg
  have hto' : (v.i + 1).toNat = v.i.toNat + 1 := by omega
  have hj : (if v.j + 1 = r.queueSize then 0 else v.j + 1) = slot r.queueSize r.front (v.i.toNat + 1) := by
    rw [hplace]
    exact next_slot line.lt (by omega)
  have hsame' : ∀ k : Nat, (k : Int) < v.i + 1 →
      Function.update v.queue v.i (r.queue v.j) k = r.queue (slot r.queueSize r.front k) := fun k hk => by
    by_cases he : (k : Int) = v.i
    · have hk' : k = v.i.toNat := by omega
      rw [he, Function.update_self, hplace, hk']
    · rw [Function.update_of_ne he]
      exact hsame k (by omega)
  have hback : r.back = r.front := (line.ends_eq.2 (Or.inr full)).symm
  have hcopy : r.copy v = if slot r.queueSize r.front (v.i.toNat + 1) ≠ r.back then
      .again ⟨Function.update v.queue v.i (r.queue v.j), v.i + 1, slot r.queueSize r.front (v.i.toNat + 1)⟩
      else .exit () ⟨Function.update v.queue v.i (r.queue v.j), v.i + 1, slot r.queueSize r.front (v.i.toNat + 1)⟩ := by
    unfold copy
    rw [hj]
  refine ⟨⟨Function.update v.queue v.i (r.queue v.j), v.i + 1, slot r.queueSize r.front (v.i.toNat + 1)⟩, rfl, hsame', ?_⟩
  by_cases hend : v.i + 1 = r.queueSize
  · -- at the last slot `j` is back at the front
    have hfront : slot r.queueSize r.front (v.i.toNat + 1) = r.front := slot_size (by omega) line.nonneg
    rw [hcopy, hfront, hback, if_neg (not_not.2 rfl)]
    exact Or.inr ⟨rfl, hend⟩
  · have hne : slot r.queueSize r.front (v.i.toNat + 1) ≠ r.back := fun he => by
      have := (slot_inj (i := v.i.toNat + 1) (k := 0) (by omega) (by omega)).1
        ((he.trans hback).trans (slot_zero line.lt).symm)
      omega
    rw [hcopy, if_pos hne]
    refine Or.inl ⟨rfl, by dsimp only; omega, by dsimp only; omega, ?_, hsame'⟩
    dsimp only
    rw [hto']

/-- **`expand_queue` keeps a full buffer's tasks in order.** -/
theorem expandQueue_line (line : r.Line l) (full : (l.length : Int) = r.queueSize) :
    ∃ r', r.expandQueue = some r' ∧ r'.Line l ∧ (l.length : Int) < r'.queueSize ∧ r'.last = r.last ∧
      r'.canceled = r.canceled ∧ r'.finished = r.finished := by
  have h₀ := line.nonneg
  have h₁ := line.lt
  have start : r.Copied { queue := fun _ => none, i := 0, j := r.front } :=
    ⟨Int.le_refl _, by dsimp only; omega, (slot_zero h₁).symm, fun k hk => by dsimp only at hk; omega⟩
  obtain ⟨⟨u, v⟩, hrun⟩ :
      ∃ x, doWhile r.copy r.queueSize.toNat { queue := fun _ => none, i := 0, j := r.front } = some x := by
    refine doWhile_total r.Copied (fun v => (r.queueSize - v.i).toNat - 1) (fun v v' h hb => ?_) _ _ start
      (by dsimp only; omega)
    obtain ⟨v₁, hi, -, ⟨hb', h'⟩ | ⟨hb', -⟩⟩ := h.pass line full
    · rw [hb] at hb'
      cases hb'
      have := h.lt
      have := h'.lt
      exact ⟨h', by omega⟩
    · rw [hb] at hb'
      cases hb'
  obtain ⟨hi, hsame⟩ : v.i = r.queueSize ∧
      ∀ k : Nat, (k : Int) < v.i → v.queue k = r.queue (slot r.queueSize r.front k) := by
    refine doWhile_post r.Copied
      (fun _ v => v.i = r.queueSize ∧ ∀ k : Nat, (k : Int) < v.i → v.queue k = r.queue (slot r.queueSize r.front k))
      (fun v v' h hb => ?_) (fun v u v' h hb => ?_) start hrun
    · obtain ⟨v₁, -, -, ⟨hb', h'⟩ | ⟨hb', -⟩⟩ := h.pass line full
      · rw [hb] at hb'
        cases hb'
        exact h'
      · rw [hb] at hb'
        cases hb'
    · obtain ⟨v₁, -, hsame, ⟨hb', -⟩ | ⟨hb', hi⟩⟩ := h.pass line full
      · rw [hb] at hb'
        cases hb'
      · rw [hb] at hb'
        cases hb'
        exact ⟨hi, hsame⟩
  unfold expandQueue
  rw [hrun]
  refine ⟨_, rfl, ?_, by dsimp only; omega, rfl, rfl, rfl⟩
  unfold Line
  dsimp only
  rw [hi] at hsame ⊢
  exact line.laidOut full hsame (by omega)

/-- After a push: expanded if it is full. -/
theorem pushed {w : SeriesWork τ} (line : r.Line w.queue) (ne : w.queue ≠ []) (last : r.last = w.last)
    (canceled : r.canceled = w.canceled) (finished : r.finished = w.finished) :
    ∃ r', (if r.front = r.back then r.expandQueue else some r) = some r' ∧ r'.Refines w := by
  split
  · rename_i he
    have full := (line.ends_eq.1 he).resolve_left ne
    obtain ⟨r', hr', hline, hroom, hlast, hcan, hfin⟩ := expandQueue_line line full
    exact ⟨r', hr', hline, hroom, hlast.trans last, hcan.trans canceled, hfin.trans finished⟩
  · rename_i he
    have hne : (w.queue.length : Int) ≠ r.queueSize := fun h => he (line.ends_eq.2 (Or.inr h))
    have hfits := line.fits
    exact ⟨r, rfl, line, by omega, last, canceled, finished⟩

/-! ## The operations -/

theorem pushFront_refines (h : r.Refines w) (task : τ) :
    ∃ r', r.pushFront task = some r' ∧ r'.Refines { w with queue := task :: w.queue } :=
  pushed (r := { r with queue := Function.update r.queue (prev r.queueSize r.front) (some task), front := _ })
    (w := { w with queue := task :: w.queue }) (h.line.pushFront h.room) (by simp) h.last h.canceled h.finished

theorem pushBack_refines (h : r.Refines w) (task : τ) :
    ∃ r', r.pushBack task = some r' ∧ r'.Refines { w with queue := w.queue ++ [task] } :=
  pushed (r := { r with queue := Function.update r.queue r.back (some task), back := _ })
    (w := { w with queue := w.queue ++ [task] }) (h.line.pushBack h.room) (by simp) h.last h.canceled h.finished

theorem popTask_refines (h : r.Refines w) : r.popTask.1 = w.popTask.1 ∧ r.popTask.2.Refines w.popTask.2 := by
  have hends := h.line.ends_eq
  have hroom := h.room
  have hline := h.line
  have hlast := h.last
  obtain ⟨queue, last, canceled, finished⟩ := w
  dsimp only at hends hroom hline hlast
  unfold popTask SeriesWork.popTask
  cases queue with
  | nil =>
    rw [if_neg (not_not.2 (hends.2 (Or.inl rfl))), hlast]
    cases last with
    | none => exact ⟨rfl, hline, hroom, rfl, h.canceled, rfl⟩
    | some t => exact ⟨rfl, hline, hroom, rfl, h.canceled, h.finished⟩
  | cons t q =>
    have hne : r.front ≠ r.back := fun he => by
      rcases hends.1 he with hnil | hfull
      · cases hnil
      · omega
    rw [if_pos hne]
    obtain ⟨hcell, hline⟩ := Ring.Holds.pop hline
    exact ⟨hcell, hline, by rw [List.length_cons] at hroom; dsimp only; omega, hlast, h.canceled, h.finished⟩

theorem exec_refines (h : r.Refines w) (op : SeriesOp τ) :
    ∃ r', r.exec op = some ((w.exec op).1, r') ∧ r'.Refines (w.exec op).2 := by
  cases op with
  | pushFront task =>
    obtain ⟨r', hr', h'⟩ := pushFront_refines h task
    exact ⟨r', by rw [exec, hr']; rfl, h'⟩
  | pushBack task =>
    obtain ⟨r', hr', h'⟩ := pushBack_refines h task
    exact ⟨r', by rw [exec, hr']; rfl, h'⟩
  | popTask =>
    obtain ⟨hout, h'⟩ := popTask_refines h
    exact ⟨r.popTask.2, by rw [exec, SeriesWork.exec, ← hout], h'⟩
  | setLastTask last => exact ⟨_, rfl, h.line, h.room, rfl, h.canceled, h.finished⟩
  | unsetLastTask => exact ⟨_, rfl, h.line, h.room, rfl, h.canceled, h.finished⟩

theorem run_refines (ops : List (SeriesOp τ)) : ∀ {r : SeriesRing τ} {w : SeriesWork τ}, r.Refines w →
    ∃ r', r.run ops = some ((w.run ops).1, r') ∧ r'.Refines (w.run ops).2 := by
  induction ops with
  | nil => exact fun h => ⟨_, rfl, h⟩
  | cons op ops ih =>
    intro r w h
    obtain ⟨r₁, hr₁, h₁⟩ := exec_refines h op
    obtain ⟨r', hr', h'⟩ := ih h₁
    exact ⟨r', by rw [run, hr₁, Option.bind_some, hr']; rfl, h'⟩

/-- **Whatever is done to a series, its buffer is a queue with two ends**: no operation fails, every `pop_task` returns
what the line of tasks says, and the ends of the buffer are in range, and equal exactly when the line is empty. -/
theorem series_deque (ops : List (SeriesOp τ)) :
    ∃ r : SeriesRing τ, new.run ops = some ((SeriesWork.new.run ops).1, r) ∧
      r.Line (SeriesWork.new.run ops).2.queue ∧ r.last = (SeriesWork.new.run ops).2.last ∧
      (0 ≤ r.front ∧ r.front < r.queueSize) ∧ (0 ≤ r.back ∧ r.back < r.queueSize) ∧
      (r.front = r.back ↔ (SeriesWork.new.run ops).2.queue = []) := by
  obtain ⟨r, hrun, h⟩ := run_refines ops new_refines
  have hroom := h.room
  refine ⟨r, hrun, h.line, h.last, ⟨h.line.nonneg, h.line.lt⟩, h.line.back_range, ?_⟩
  rw [h.line.ends_eq]
  exact ⟨fun he => he.resolve_right (by omega), Or.inl⟩

/-- Round the start of the buffer, and on to a larger one. -/
example : (new.run [.pushBack 1, .pushFront 0, .setLastTask 9, .pushBack 2, .pushFront 8, .pushBack 3, .popTask, .popTask,
      .popTask, .popTask, .popTask, .popTask, .popTask]).map (fun x => x.1.drop 6) =
    some [some 8, some 0, some 1, some 2, some 3, some 9, none] := by decide

end SeriesRing

end Tinywf
