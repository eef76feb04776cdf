import Mathlib.Logic.Function.Basic
import Mathlib.Tactic.Common
/-!
# Ring — sequences in a circular buffer

`Holds cell size front back l`: the cells from `front` on, past the last of `size` cells at the first again, hold `l`, and
`back` is the cell behind it.  Both ends grow (`Holds.pushBack`, `Holds.pushFront`) and the front shrinks (`Holds.pop`).
A full buffer and an empty one have the same ends: `front = back` tells them apart only from the rest
(`Holds.ends_eq`).
-/
namespace Ring

variable {α : Type*}

/-- The cell `i` places behind `front`. -/
def slot (size front : Int) (i : Nat) : Int := if front + i < size then front + i else front + i - size

/-- One cell on. -/
def next (size j : Int) : Int := if j + 1 = size then 0 else j + 1

/-- One cell back. -/
def prev (size j : Int) : Int := if j - 1 = -1 then size - 1 else j - 1

variable {size front back : Int} {i k : Nat}

theorem slot_zero (h : front < size) : slot size front 0 = front := by
  unfold slot
  split <;> omega

theorem slot_size (h : size = k) (h₀ : 0 ≤ front) : slot size front k = front := by
  unfold slot
  split <;> omega

theorem slot_range (h₀ : 0 ≤ front) (h : front < size) (hi : (i : Int) ≤ size) :
    0 ≤ slot size front i ∧ slot size front i < size := by
  unfold slot
  split <;> omega

theorem slot_inj (hi : (i : Int) < size) (hk : (k : Int) < size) : slot size front i = slot size front k ↔ i = k := by
  unfold slot
  split <;> split <;> omega

theorem next_slot (_ : front < size) (hi : (i : Int) < size) :
    next size (slot size front i) = slot size front (i + 1) := by
  unfold next slot
  push_cast
  split <;> split <;> split <;> omega

theorem slot_next (hi : (i : Int) < size) :
    slot size (next size front) i = slot size front (i + 1) := by
  unfold next slot
  push_cast
  split <;> split <;> split <;> omega

theorem slot_prev (hi : (i : Int) < size) :
    slot size (prev size front) (i + 1) = slot size front i := by
  unfold prev slot
  push_cast
  split <;> split <;> split <;> omega

theorem prev_range (h₀ : 0 ≤ front) (h : front < size) : 0 ≤ prev size front ∧ prev size front < size := by
  unfold prev
  split <;> omega

theorem next_range (h₀ : 0 ≤ front) (h : front < size) : 0 ≤ next size front ∧ next size front < size := by
  unfold next
  split <;> omega

/-- **The cells from `front` to `back` hold `l`.** -/
structure Holds (cell : Int → Option α) (size front back : Int) (l : List α) : Prop where
  nonneg : 0 ≤ front
  lt : front < size
  fits : (l.length : Int) ≤ size
  back_eq : back = slot size front l.length
  cells : ∀ k : Nat, k < l.length → cell (slot size front k) = l[k]?

namespace Holds

variable {cell : Int → Option α} {l : List α} {a : α}

theorem empty (cell : Int → Option α) (h : 0 < size) : Holds cell size 0 0 [] :=
  ⟨Int.le_refl _, h, Int.le_of_lt h, (slot_zero h).symm, fun _ hk => absurd hk (Nat.not_lt_zero _)⟩

theorem back_range (h : Holds cell size front back l) : 0 ≤ back ∧ back < size := by
  rw [h.back_eq]
  exact slot_range h.nonneg h.lt h.fits

/-- **The ends meet when the buffer is empty, and when it is full.** -/
theorem ends_eq (h : Holds cell size front back l) : front = back ↔ l = [] ∨ (l.length : Int) = size := by
  have h₀ := h.nonneg
  have h₁ := h.lt
  have h₂ := h.fits
  rw [h.back_eq, ← List.length_eq_zero_iff]
  unfold slot
  split <;> omega

theorem pushBack (h : Holds cell size front back l) (room : (l.length : Int) < size) :
    Holds (Function.update cell back (some a)) size front (next size back) (l ++ [a]) := by
  refine ⟨h.nonneg, h.lt, ?_, ?_, fun k hk => ?_⟩
  · rw [List.length_append, List.length_singleton]
    omega
  · rw [List.length_append, List.length_singleton, h.back_eq]
    exact next_slot h.lt room
  · rw [List.length_append, List.length_singleton] at hk
    rw [h.back_eq]
    rcases Nat.lt_succ_iff_lt_or_eq.1 hk with hk | rfl
    · have hne : slot size front k ≠ slot size front l.length := fun he => by
        have := (slot_inj (by omega) room).1 he
        omega
      rw [Function.update_of_ne hne, List.getElem?_append_left hk]
      exact h.cells k hk
    · rw [Function.update_self, List.getElem?_concat_length]

theorem pushFront (h : Holds cell size front back l) (room : (l.length : Int) < size) :
    Holds (Function.update cell (prev size front) (some a)) size (prev size front) back (a :: l) := by
  obtain ⟨hp₀, hp⟩ := prev_range h.nonneg h.lt
  refine ⟨hp₀, hp, ?_, ?_, fun k hk => ?_⟩
  · rw [List.length_cons]
    omega
  · rw [List.length_cons, slot_prev room]
    exact h.back_eq
  · have hzero : slot size (prev size front) 0 = prev size front := slot_zero hp
    cases k with
    | zero =>
      rw [hzero, Function.update_self]
      rfl
    | succ k =>
      rw [List.length_cons] at hk
      have hne : slot size (prev size front) (k + 1) ≠ prev size front := fun he => by
        have := (slot_inj (i := k + 1) (k := 0) (by push_cast; omega) (by omega)).1 (he.trans hzero.symm)
        omega
      rw [Function.update_of_ne hne, slot_prev (by omega), List.getElem?_cons_succ]
      exact h.cells k (Nat.lt_of_succ_lt_succ hk)

theorem pop (h : Holds cell size front back (a :: l)) : cell front = some a ∧ Holds cell size (next size front) back l := by
  have hfits := h.fits
  rw [List.length_cons] at hfits
  obtain ⟨hn₀, hn⟩ := next_range h.nonneg h.lt
  refine ⟨?_, hn₀, hn, by omega, ?_, fun k hk => ?_⟩
  · have := h.cells 0 (by simp)
    rw [slot_zero h.lt] at this
    exact this
  · rw [slot_next (by omega), h.back_eq, List.length_cons]
  · rw [slot_next (by omega), h.cells (k + 1) (Nat.succ_lt_succ hk), List.getElem?_cons_succ]

/-- A buffer that is not full holds one sequence. -/
theorem unique {l' : List α} (h : Holds cell size front back l) (h' : Holds cell size front back l')
    (room : (l.length : Int) < size) (room' : (l'.length : Int) < size) : l = l' := by
  have hlen : l.length = l'.length := (slot_inj room room').1 (h.back_eq.symm.trans h'.back_eq)
  refine List.ext_getElem? fun k => ?_
  by_cases hk : k < l.length
  · rw [← h.cells k hk, ← h'.cells k (hlen ▸ hk)]
  · rw [List.getElem?_eq_none (by omega), List.getElem?_eq_none (by omega)]

/-- **A full buffer laid out from its first cell on, with room behind it.** -/
theorem laidOut {cell' : Int → Option α} {size' : Int} (h : Holds cell size front back l) (full : (l.length : Int) = size)
    (same : ∀ k : Nat, (k : Int) < size → cell' k = cell (slot size front k)) (room : size < size') :
    Holds cell' size' 0 size l := by
  have h₁ := h.lt
  have h₀ := h.nonneg
  have hslot : ∀ k : Nat, (k : Int) ≤ size → slot size' 0 k = k := fun k hk => by
    unfold slot
    split <;> omega
  refine ⟨Int.le_refl _, by omega, by omega, ?_, fun k hk => ?_⟩
  · rw [hslot _ (by omega), full]
  · rw [hslot k (by omega), same k (by omega)]
    exact h.cells k hk

end Holds

end Ring
