import Mathlib.Algebra.BigOperators.Group.Finset.Basic
import Mathlib.Order.Basic
import Mathlib.Tactic.Common
/-!
# BinHeap — a binary heap in an array, each element knowing its slot

`siftUp` and `siftDown` move a hole: each pass copies one element into the hole, and the element being placed is stored
once, at the end.  Seen with that element already in the hole, a pass is a swap (`put_put_eq_swap`), so whatever swaps
keep the sifts keep (`siftUp_keeps`, `siftDown_keeps`): what is stored, and that every element knows its slot.

The order is by a key.  `Ordered` is the heap; `Hole` is the heap but for one slot, `Up` the same with that slot in
order with its children, `Down` with its parent.  `siftUp` takes `Up` to `Ordered` (`siftUp_ordered`), `siftDown` takes
`Down` to `Ordered` (`siftDown_ordered`), and the two one after the other mend a `Hole` (`siftUp_down`).
-/
namespace BinHeap

variable {α κ : Type*}

/-- The slots of the array, and each element's record of the slot it is in. -/
structure Slots (α : Type*) where
  slot : Nat → α
  pos : α → Nat

def parent (i : Nat) : Nat := (i - 1) / 2

section
variable [DecidableEq α]

def Slots.put (s : Slots α) (i : Nat) (x : α) : Slots α :=
  { slot := Function.update s.slot i x, pos := Function.update s.pos x i }

def Slots.swap (s : Slots α) (i j : Nat) : Slots α := (s.put i (s.slot j)).put j (s.slot i)

/-- Place `x` at slot `i` or above: `up x y` says that `x` goes above `y`.  As much fuel as `i` is enough. -/
def siftUp (up : α → α → Bool) (x : α) : Nat → Nat → Slots α → Slots α
  | 0, i, s => s.put i x
  | n + 1, i, s =>
    if 0 < i ∧ up x (s.slot (parent i)) = true then siftUp up x n (parent i) (s.put i (s.slot (parent i)))
    else s.put i x

/-- Place `x` at slot `top` or below, among the first `size` slots.  As much fuel as `size` is enough. -/
def siftDown (lt : α → α → Bool) (x : α) (size : Nat) : Nat → Nat → Slots α → Slots α
  | 0, top, s => s.put top x
  | n + 1, top, s =>
    let i := 2 * top + 1
    if i + 1 < size then
      if lt (s.slot i) x then
        if lt (s.slot (i + 1)) (s.slot i) then siftDown lt x size n (i + 1) (s.put top (s.slot (i + 1)))
        else siftDown lt x size n i (s.put top (s.slot i))
      else
        if lt (s.slot (i + 1)) x then siftDown lt x size n (i + 1) (s.put top (s.slot (i + 1)))
        else s.put top x
    else if i + 1 = size ∧ lt (s.slot i) x = true then (s.put top (s.slot i)).put i x
    else s.put top x

/-! ## Passes are swaps -/

@[simp] theorem put_slot_self (s : Slots α) (i : Nat) (x : α) : (s.put i x).slot i = x := Function.update_self ..

theorem put_slot_ne (s : Slots α) {i j : Nat} (x : α) (h : j ≠ i) : (s.put i x).slot j = s.slot j :=
  Function.update_of_ne h _ _

@[simp] theorem put_pos_self (s : Slots α) (i : Nat) (x : α) : (s.put i x).pos x = i := Function.update_self ..

theorem put_pos_ne (s : Slots α) {i : Nat} {x y : α} (h : y ≠ x) : (s.put i x).pos y = s.pos y :=
  Function.update_of_ne h _ _

theorem swap_slot (s : Slots α) (i j k : Nat) :
    (s.swap i j).slot k = if k = j then s.slot i else if k = i then s.slot j else s.slot k := by
  simp only [Slots.swap, Slots.put, Function.update_apply]

theorem swap_pos (s : Slots α) (i j : Nat) (y : α) :
    (s.swap i j).pos y = if y = s.slot i then j else if y = s.slot j then i else s.pos y := by
  simp only [Slots.swap, Slots.put, Function.update_apply]

/-- **A pass of a sift is a swap**, seen with the element in the hole. -/
theorem put_put_eq_swap (s : Slots α) {i j : Nat} (x : α) (h : j ≠ i) :
    (s.put i (s.slot j)).put j x = (s.put i x).swap i j := by
  unfold Slots.swap
  rw [put_slot_self, put_slot_ne s x h]
  simp only [Slots.put, Function.update_idem, Slots.mk.injEq, true_and]
  funext y
  by_cases hx : y = x
  · rw [hx, Function.update_self, Function.update_self]
  · simp only [Function.update_of_ne hx, Function.update_apply]

theorem parent_lt {i : Nat} (h : 0 < i) : parent i < i := by
  unfold parent
  omega

theorem siftUp_keeps {up : α → α → Bool} {x : α} {m : Nat} {P : Slots α → Prop}
    (swap : ∀ s i j, i < m → j < m → P s → P (s.swap i j)) :
    ∀ {n i : Nat} {s : Slots α}, i < m → P (s.put i x) → P (siftUp up x n i s)
  | 0, _, _, _, h => h
  | n + 1, i, s, hi, h => by
    unfold siftUp
    split
    · rename_i hc
      have hp : parent i < i := parent_lt hc.1
      apply siftUp_keeps swap (by omega)
      rw [put_put_eq_swap s x (by omega)]
      exact swap _ _ _ hi (by omega) h
    · exact h

theorem siftDown_keeps {lt : α → α → Bool} {x : α} {m : Nat} {P : Slots α → Prop}
    (swap : ∀ s i j, i < m → j < m → P s → P (s.swap i j)) :
    ∀ {n top : Nat} {s : Slots α}, top < m → P (s.put top x) → P (siftDown lt x m n top s)
  | 0, _, _, _, h => h
  | n + 1, top, s, ht, h => by
    have pass : ∀ c, c < m → c ≠ top → P ((s.put top (s.slot c)).put c x) := by
      intro c hc hne
      rw [put_put_eq_swap s x hne]
      exact swap _ _ _ ht hc h
    unfold siftDown
    simp only
    split
    · split
      · split
        · exact siftDown_keeps swap (by omega) (pass _ (by omega) (by omega))
        · exact siftDown_keeps swap (by omega) (pass _ (by omega) (by omega))
      · split
        · exact siftDown_keeps swap (by omega) (pass _ (by omega) (by omega))
        · exact h
    · split
      · exact pass _ (by omega) (by omega)
      · exact h

/-! ## What is stored -/

/-- The elements of the first `m` slots. -/
def elems (m : Nat) (s : Slots α) : Finset α := (Finset.range m).image s.slot

theorem mem_elems {m : Nat} {s : Slots α} {x : α} : x ∈ elems m s ↔ ∃ i < m, s.slot i = x := by
  simp only [elems, Finset.mem_image, Finset.mem_range]

/-- The first `m` slots hold the elements of `E`, every one knowing its slot. -/
structure Holds (m : Nat) (E : Finset α) (s : Slots α) : Prop where
  pos_slot : ∀ i < m, s.pos (s.slot i) = i
  elems_eq : elems m s = E

namespace Holds
variable {m : Nat} {E : Finset α} {s : Slots α}

theorem slot_mem (h : Holds m E s) {i : Nat} (hi : i < m) : s.slot i ∈ E := by
  rw [← h.elems_eq]
  exact mem_elems.2 ⟨i, hi, rfl⟩

theorem pos_lt (h : Holds m E s) {x : α} (hx : x ∈ E) : s.pos x < m := by
  rw [← h.elems_eq] at hx
  obtain ⟨i, hi, rfl⟩ := mem_elems.1 hx
  rw [h.pos_slot i hi]
  exact hi

theorem slot_pos (h : Holds m E s) {x : α} (hx : x ∈ E) : s.slot (s.pos x) = x := by
  rw [← h.elems_eq] at hx
  obtain ⟨i, hi, rfl⟩ := mem_elems.1 hx
  rw [h.pos_slot i hi]

theorem slot_inj (h : Holds m E s) {i j : Nat} (hi : i < m) (hj : j < m) (e : s.slot i = s.slot j) : i = j := by
  have := h.pos_slot i hi
  rw [e, h.pos_slot j hj] at this
  exact this.symm

theorem sum_range {M : Type*} [AddCommMonoid M] (h : Holds m E s) (f : α → M) :
    ∑ i ∈ Finset.range m, f (s.slot i) = ∑ x ∈ E, f x := by
  rw [← h.elems_eq, elems, Finset.sum_image]
  intro i hi j hj e
  exact h.slot_inj (Finset.mem_range.1 hi) (Finset.mem_range.1 hj) e

theorem put_self (h : Holds m E s) {i : Nat} (hi : i < m) : s.put i (s.slot i) = s := by
  unfold Slots.put
  rw [Function.update_eq_self]
  have : Function.update s.pos (s.slot i) i = s.pos := by
    rw [Function.update_eq_self_iff, h.pos_slot i hi]
  rw [this]

/-- The first slot past the end takes a new element. -/
theorem put_last (h : Holds m E s) {x : α} (hx : x ∉ E) : Holds (m + 1) (insert x E) (s.put m x) := by
  constructor
  · intro k hk
    by_cases hkm : k = m
    · rw [hkm, put_slot_self, put_pos_self]
    · have hlt : k < m := by omega
      have hne : s.slot k ≠ x := fun e => hx (e ▸ h.slot_mem hlt)
      rw [put_slot_ne s x hkm, put_pos_ne s hne]
      exact h.pos_slot k hlt
  · ext y
    rw [mem_elems, Finset.mem_insert, ← h.elems_eq, mem_elems]
    constructor
    · rintro ⟨k, hk, rfl⟩
      by_cases hkm : k = m
      · rw [hkm, put_slot_self]
        exact .inl rfl
      · exact .inr ⟨k, by omega, (put_slot_ne s x hkm).symm⟩
    · rintro (rfl | ⟨k, hk, rfl⟩)
      · exact ⟨m, by omega, put_slot_self s m y⟩
      · exact ⟨k, by omega, put_slot_ne s x (by omega)⟩

/-- The last slot's element is dropped. -/
theorem drop_last (h : Holds (m + 1) E s) : Holds m (E.erase (s.slot m)) s := by
  refine ⟨fun k hk => h.pos_slot k (by omega), ?_⟩
  ext y
  rw [mem_elems, Finset.mem_erase, ← h.elems_eq, mem_elems]
  constructor
  · rintro ⟨k, hk, rfl⟩
    refine ⟨fun e => ?_, k, by omega, rfl⟩
    have := h.slot_inj (by omega) (by omega) e
    omega
  · rintro ⟨hne, k, hk, rfl⟩
    refine ⟨k, ?_, rfl⟩
    rcases Nat.lt_succ_iff_lt_or_eq.1 hk with hlt | rfl
    · exact hlt
    · exact absurd rfl hne

/-- The last slot's element takes the place of another. -/
theorem put_over (h : Holds (m + 1) E s) {i : Nat} (hi : i < m) :
    Holds m (E.erase (s.slot i)) (s.put i (s.slot m)) := by
  have hne : ∀ k < m, k ≠ i → s.slot k ≠ s.slot m := fun k hk _ e => by
    have := h.slot_inj (by omega) (by omega) e
    omega
  constructor
  · intro k hk
    by_cases hki : k = i
    · rw [hki, put_slot_self, put_pos_self]
    · rw [put_slot_ne s _ hki, put_pos_ne s (hne k hk hki)]
      exact h.pos_slot k (by omega)
  · ext y
    rw [mem_elems, Finset.mem_erase, ← h.elems_eq, mem_elems]
    constructor
    · rintro ⟨k, hk, rfl⟩
      by_cases hki : k = i
      · rw [hki, put_slot_self]
        refine ⟨fun e => ?_, m, by omega, rfl⟩
        have := h.slot_inj (by omega) (by omega) e
        omega
      · rw [put_slot_ne s _ hki]
        exact ⟨fun e => hki (h.slot_inj (by omega) (by omega) e), k, by omega, rfl⟩
    · rintro ⟨hy, k, hk, rfl⟩
      rcases Nat.lt_succ_iff_lt_or_eq.1 hk with hlt | rfl
      · have hki : k ≠ i := fun e => hy (by rw [e])
        exact ⟨k, hlt, put_slot_ne s _ hki⟩
      · exact ⟨i, hi, put_slot_self s i _⟩

theorem swap (h : Holds m E s) {i j : Nat} (hi : i < m) (hj : j < m) : Holds m E (s.swap i j) := by
  constructor
  · intro k hk
    rw [swap_slot, swap_pos]
    by_cases hkj : k = j
    · simp only [hkj, if_true]
    by_cases hki : k = i
    · have hne : s.slot j ≠ s.slot i := fun e => hkj (hki.trans (h.slot_inj hj hi e).symm)
      subst hki
      simp only [hkj, hne, if_true, if_false]
    · have hi' : s.slot k ≠ s.slot i := fun e => hki (h.slot_inj hk hi e)
      have hj' : s.slot k ≠ s.slot j := fun e => hkj (h.slot_inj hk hj e)
      simp only [hkj, hki, hi', hj', if_false]
      exact h.pos_slot k hk
  · rw [← h.elems_eq]
    ext x
    rw [mem_elems, mem_elems]
    constructor
    · rintro ⟨k, hk, rfl⟩
      rw [swap_slot]
      split
      · exact ⟨i, hi, rfl⟩
      · split
        · exact ⟨j, hj, rfl⟩
        · exact ⟨k, hk, rfl⟩
    · rintro ⟨k, hk, rfl⟩
      by_cases hki : k = i
      · exact ⟨j, hj, by simp only [swap_slot, hki, if_true]⟩
      by_cases hkj : k = j
      · refine ⟨i, hi, ?_⟩
        rw [swap_slot, hkj]
        split
        · rename_i e
          rw [e]
        · simp only [if_true]
      · exact ⟨k, hk, by simp only [swap_slot, hki, hkj, if_false]⟩

end Holds

/-- What a sift leaves as it was: the elements held, that they know their slots, and where any other element is. -/
structure Rearranged (m : Nat) (E : Finset α) (s t : Slots α) : Prop where
  holds : Holds m E t
  others : ∀ x ∉ E, t.pos x = s.pos x

theorem Rearranged.swap {m : Nat} {E : Finset α} {s t : Slots α} (h : Rearranged m E s t) {i j : Nat} (hi : i < m)
    (hj : j < m) : Rearranged m E s (t.swap i j) := by
  refine ⟨h.holds.swap hi hj, fun x hx => ?_⟩
  have hi' : x ≠ t.slot i := fun e => hx (e ▸ h.holds.slot_mem hi)
  have hj' : x ≠ t.slot j := fun e => hx (e ▸ h.holds.slot_mem hj)
  rw [swap_pos, if_neg hi', if_neg hj']
  exact h.others x hx

theorem Rearranged.trans {m : Nat} {E : Finset α} {s t u : Slots α} (h : Rearranged m E s t) (h' : Rearranged m E t u) :
    Rearranged m E s u :=
  ⟨h'.holds, fun x hx => (h'.others x hx).trans (h.others x hx)⟩

theorem Rearranged.put {m : Nat} {E : Finset α} {s : Slots α} {i : Nat} {x : α} (h : Holds m E (s.put i x)) (hi : i < m) :
    Rearranged m E s (s.put i x) := by
  refine ⟨h, fun y hy => put_pos_ne s fun e => hy ?_⟩
  have hx := h.slot_mem hi
  rw [put_slot_self] at hx
  rw [e]
  exact hx

/-- **`siftUp` rearranges.** -/
theorem siftUp_rearranged {up : α → α → Bool} {x : α} {m n i : Nat} {E : Finset α} {s : Slots α} (hi : i < m)
    (h : Holds m E (s.put i x)) : Rearranged m E s (siftUp up x n i s) :=
  siftUp_keeps (fun _ _ _ hi hj ht => ht.swap hi hj) hi (.put h hi)

/-- **`siftDown` rearranges.** -/
theorem siftDown_rearranged {lt : α → α → Bool} {x : α} {m n i : Nat} {E : Finset α} {s : Slots α} (hi : i < m)
    (h : Holds m E (s.put i x)) : Rearranged m E s (siftDown lt x m n i s) :=
  siftDown_keeps (fun _ _ _ hi hj ht => ht.swap hi hj) hi (.put h hi)

end

/-! ## The order -/

section
variable [LinearOrder κ] {key : α → κ} {m : Nat}

/-- The elements at slots `i` and `j` are in order. -/
def Slots.Le (key : α → κ) (s : Slots α) (i j : Nat) : Prop := key (s.slot i) ≤ key (s.slot j)

/-- No element of the first `m` slots is before its parent. -/
def Ordered (key : α → κ) (m : Nat) (s : Slots α) : Prop := ∀ c, 0 < c → c < m → s.Le key (parent c) c

/-- The heap order but for the element at `i`: its children are in order with its parent. -/
structure Hole (key : α → κ) (m i : Nat) (s : Slots α) : Prop where
  away : ∀ c, 0 < c → c < m → c ≠ i → parent c ≠ i → s.Le key (parent c) c
  across : ∀ c, 0 < c → c < m → parent c = i → 0 < i → s.Le key (parent i) c

/-- The heap order but that the element at `i` may belong further up. -/
structure Up (key : α → κ) (m i : Nat) (s : Slots α) : Prop extends Hole key m i s where
  below : ∀ c, 0 < c → c < m → parent c = i → s.Le key i c

/-- The heap order but that the element at `i` may belong further down. -/
structure Down (key : α → κ) (m i : Nat) (s : Slots α) : Prop extends Hole key m i s where
  above : 0 < i → s.Le key (parent i) i

theorem Up.ordered {i : Nat} {s : Slots α} (h : Up key m i s) (above : 0 < i → s.Le key (parent i) i) :
    Ordered key m s := by
  intro c hc hcm
  by_cases hi : c = i
  · rw [hi]
    exact above (hi ▸ hc)
  by_cases hp : parent c = i
  · rw [hp]
    exact h.below c hc hcm hp
  · exact h.away c hc hcm hi hp

theorem Down.ordered {i : Nat} {s : Slots α} (h : Down key m i s)
    (below : ∀ c, 0 < c → c < m → parent c = i → s.Le key i c) : Ordered key m s :=
  Up.ordered ⟨h.toHole, below⟩ h.above

namespace Ordered
variable {s : Slots α}

theorem hole (h : Ordered key m s) {i : Nat} (hi : i < m) : Hole key m i s := by
  refine ⟨fun c hc hcm _ _ => h c hc hcm, fun c hc hcm hp h0 => ?_⟩
  have h1 : s.Le key (parent i) i := h i h0 hi
  have h2 : s.Le key i c := hp ▸ h c hc hcm
  exact le_trans h1 h2

theorem down (h : Ordered key m s) {i : Nat} (hi : i < m) : Down key m i s :=
  ⟨h.hole hi, fun h0 => h i h0 hi⟩

/-- **The first slot holds a least element.** -/
theorem root_le (h : Ordered key m s) : ∀ {i : Nat}, i < m → s.Le key 0 i := by
  intro i
  induction i using Nat.strong_induction_on with
  | _ i ih =>
    intro hi
    by_cases h0 : 0 < i
    · have hp := parent_lt h0
      exact le_trans (ih (parent i) hp (by omega)) (h i h0 hi)
    · rw [Nat.eq_zero_of_not_pos h0]
      exact le_refl (key (s.slot 0))

end Ordered

/-! ### Where an order is lost -/

section
variable {key' : α → κ} {i : Nat} {s : Slots α}

theorem Ordered.rekeyed (h : Ordered key m s) (hi : i < m) (same : ∀ k < m, k ≠ i → key' (s.slot k) = key (s.slot k)) :
    Hole key' m i s := by
  refine ⟨fun c hc hcm hci hpi => ?_, fun c hc hcm hp h0 => ?_⟩
  · have := parent_lt hc
    unfold Slots.Le
    rw [same c hcm hci, same _ (by omega) hpi]
    exact h c hc hcm
  · have h1 := parent_lt h0
    have h2 := parent_lt hc
    unfold Slots.Le
    rw [same c hcm (by omega), same _ (by omega) (by omega)]
    exact (h.hole hi).across c hc hcm hp h0

/-- One element's key goes down. -/
theorem Ordered.lowered (h : Ordered key m s) (hi : i < m) (same : ∀ k < m, k ≠ i → key' (s.slot k) = key (s.slot k))
    (less : key' (s.slot i) ≤ key (s.slot i)) : Up key' m i s := by
  refine ⟨h.rekeyed hi same, fun c hc hcm hp => ?_⟩
  have h2 := parent_lt hc
  unfold Slots.Le
  rw [same c hcm (by omega)]
  have h3 : s.Le key i c := hp ▸ h c hc hcm
  exact le_trans less h3

/-- One element's key goes up. -/
theorem Ordered.raised (h : Ordered key m s) (hi : i < m) (same : ∀ k < m, k ≠ i → key' (s.slot k) = key (s.slot k))
    (more : key (s.slot i) ≤ key' (s.slot i)) : Down key' m i s := by
  refine ⟨h.rekeyed hi same, fun h0 => ?_⟩
  have h1 := parent_lt h0
  unfold Slots.Le
  rw [same _ (by omega) (by omega)]
  have h3 : s.Le key (parent i) i := h i h0 hi
  exact le_trans h3 more

end

theorem Ordered.congr {key' : α → κ} {s : Slots α} (h : Ordered key m s)
    (same : ∀ k < m, key' (s.slot k) = key (s.slot k)) : Ordered key' m s := by
  intro c hc hcm
  have := parent_lt hc
  unfold Slots.Le
  rw [same c hcm, same _ (by omega)]
  exact h c hc hcm

theorem Ordered.drop_last {s : Slots α} (h : Ordered key (m + 1) s) : Ordered key m s :=
  fun c hc hcm => h c hc (by omega)

variable [DecidableEq α]

/-- A new element past the end. -/
theorem Ordered.put_last {s : Slots α} (h : Ordered key m s) (x : α) : Up key (m + 1) m (s.put m x) := by
  refine ⟨⟨fun c hc hcm hci hpi => ?_, fun c hc hcm hp _ => ?_⟩, fun c hc hcm hp => ?_⟩
  · unfold Slots.Le
    rw [put_slot_ne s x hci, put_slot_ne s x hpi]
    exact h c hc (by omega)
  · have := parent_lt hc
    omega
  · have := parent_lt hc
    omega

/-- The last element in the place of another. -/
theorem Ordered.put_over {i : Nat} {s : Slots α} (h : Ordered key (m + 1) s) (hi : i < m) (x : α) :
    Hole key m i (s.put i x) := by
  refine ⟨fun c hc hcm hci hpi => ?_, fun c hc hcm hp h0 => ?_⟩
  · unfold Slots.Le
    rw [put_slot_ne s x hci, put_slot_ne s x hpi]
    exact h c hc (by omega)
  · have h1 := parent_lt h0
    have h2 := parent_lt hc
    unfold Slots.Le
    rw [put_slot_ne s x (by omega), put_slot_ne s x (by omega)]
    exact (h.hole (i := i) (by omega)).across c hc (by omega) hp h0

/-! ### Sifting up -/

theorem Hole.swap_up {i : Nat} {s : Slots α} (h : Hole key m i s) (h0 : 0 < i) (hi : i < m) (hle : s.Le key i (parent i)) :
    Up key m (parent i) (s.swap i (parent i)) := by
  have hp := parent_lt h0
  have at_parent : (s.swap i (parent i)).slot (parent i) = s.slot i := by rw [swap_slot, if_pos rfl]
  have at_i : (s.swap i (parent i)).slot i = s.slot (parent i) := by rw [swap_slot, if_neg (by omega), if_pos rfl]
  have off : ∀ k, k ≠ i → k ≠ parent i → (s.swap i (parent i)).slot k = s.slot k := fun k h1 h2 => by
    rw [swap_slot, if_neg h2, if_neg h1]
  have grand : 0 < parent i → s.Le key (parent (parent i)) (parent i) := fun h1 =>
    h.away (parent i) h1 (by omega) (by omega) (by have := parent_lt h1; omega)
  refine ⟨⟨fun c hc hcm hci hcp => ?_, fun c hc hcm hcp h1 => ?_⟩, fun c hc hcm hcp => ?_⟩
  · unfold Slots.Le
    have hcc : c ≠ i := fun e => hcp (by rw [e])
    rw [off c hcc hci]
    by_cases hpi : parent c = i
    · rw [hpi, at_i]
      exact h.across c hc hcm hpi h0
    · rw [off _ hpi hcp]
      exact h.away c hc hcm hcc hpi
  · have := parent_lt h1
    unfold Slots.Le
    rw [off (parent (parent i)) (by omega) (by omega)]
    by_cases hcc : c = i
    · rw [hcc, at_i]
      exact grand h1
    · rw [off c hcc (by have := parent_lt hc; omega)]
      have h2 : s.Le key (parent i) c := hcp ▸ h.away c hc hcm hcc (by omega)
      exact le_trans (grand h1) h2
  · unfold Slots.Le
    rw [at_parent]
    by_cases hcc : c = i
    · rw [hcc, at_i]
      exact hle
    · rw [off c hcc (by have := parent_lt hc; omega)]
      have h2 : s.Le key (parent i) c := hcp ▸ h.away c hc hcm hcc (by omega)
      exact le_trans hle h2

section
variable {up : α → α → Bool} {x : α}

/-- **`siftUp` mends an element that is too far down.** -/
theorem siftUp_ordered (yes : ∀ a b, up a b = true → key a ≤ key b) (no : ∀ a b, up a b = false → key b ≤ key a) :
    ∀ {n i : Nat} {s : Slots α}, i ≤ n → i < m → Up key m i (s.put i x) → Ordered key m (siftUp up x n i s)
  | 0, i, s, hn, _, h => h.ordered (by omega)
  | n + 1, i, s, hn, hi, h => by
    unfold siftUp
    split
    · rename_i hc
      have hp := parent_lt hc.1
      apply siftUp_ordered yes no (by omega) (by omega)
      rw [put_put_eq_swap s x (by omega)]
      apply h.toHole.swap_up hc.1 hi
      unfold Slots.Le
      rw [put_slot_self, put_slot_ne s x (by omega)]
      exact yes _ _ hc.2
    · rename_i hc
      apply h.ordered
      intro h0
      have hp := parent_lt h0
      unfold Slots.Le
      rw [put_slot_self, put_slot_ne s x (by omega)]
      exact no _ _ (by simpa [h0] using hc)

/-- **`siftUp` leaves an element that is out of order only with what is below it.** -/
theorem siftUp_down (yes : ∀ a b, up a b = true → key a ≤ key b) (no : ∀ a b, up a b = false → key b ≤ key a)
    {n i : Nat} {s : Slots α} {E : Finset α} (hn : i ≤ n) (hi : i < m) (hE : Holds m E (s.put i x))
    (h : Hole key m i (s.put i x)) : Down key m ((siftUp up x n i s).pos x) (siftUp up x n i s) := by
  have hx : x ∈ E := by
    have := hE.slot_mem hi
    rwa [put_slot_self] at this
  have hr : Rearranged m E s (siftUp up x n i s) := siftUp_rearranged hi hE
  have hlt := hr.holds.pos_lt hx
  cases n with
  | zero =>
    have h0 : i = 0 := by omega
    subst h0
    exact ⟨by rw [siftUp, put_pos_self]; exact h, by rw [siftUp, put_pos_self]; omega⟩
  | succ n =>
    rw [siftUp] at hlt ⊢
    split at hlt <;> rename_i hc
    · rw [if_pos hc]
      have hp := parent_lt hc.1
      apply Ordered.down _ hlt
      apply siftUp_ordered yes no (by omega) (by omega)
      rw [put_put_eq_swap s x (by omega)]
      apply h.swap_up hc.1 hi
      unfold Slots.Le
      rw [put_slot_self, put_slot_ne s x (by omega)]
      exact yes _ _ hc.2
    · rw [if_neg hc, put_pos_self]
      refine ⟨h, fun h0 => ?_⟩
      have hp := parent_lt h0
      unfold Slots.Le
      rw [put_slot_self, put_slot_ne s x (by omega)]
      exact no _ _ (by simpa [h0] using hc)

end

/-! ### Sifting down -/

theorem Down.swap_down {i c : Nat} {s : Slots α} (h : Down key m i s) (hc : 0 < c) (hcm : c < m) (hp : parent c = i)
    (hle : s.Le key c i) (least : ∀ d, 0 < d → d < m → parent d = i → s.Le key c d) : Down key m c (s.swap i c) := by
  have hic : i < c := hp ▸ parent_lt hc
  have at_c : (s.swap i c).slot c = s.slot i := by rw [swap_slot, if_pos rfl]
  have at_i : (s.swap i c).slot i = s.slot c := by rw [swap_slot, if_neg (by omega), if_pos rfl]
  have off : ∀ k, k ≠ i → k ≠ c → (s.swap i c).slot k = s.slot k := fun k h1 h2 => by
    rw [swap_slot, if_neg h2, if_neg h1]
  refine ⟨⟨fun d hd hdm hdc hpd => ?_, fun d hd hdm hpd _ => ?_⟩, fun _ => ?_⟩
  · unfold Slots.Le
    by_cases hdi : d = i
    · have hlt := parent_lt hd
      rw [hdi] at hlt hd ⊢
      rw [at_i, off (parent i) (by omega) (by omega)]
      exact h.across c hc hcm hp hd
    rw [off d hdi hdc]
    by_cases hpi : parent d = i
    · rw [hpi, at_i]
      exact least d hd hdm hpi
    · rw [off _ hpi hpd]
      exact h.away d hd hdm hdi hpi
  · have hlt := parent_lt hd
    unfold Slots.Le
    rw [hp, at_i, off d (by omega) (by omega)]
    have := h.away d hd hdm (by omega) (by omega)
    rwa [hpd] at this
  · unfold Slots.Le
    rw [hp, at_i, at_c]
    exact hle

theorem child_cases {c i : Nat} (h0 : 0 < c) (h : parent c = i) : c = 2 * i + 1 ∨ c = 2 * i + 1 + 1 := by
  unfold parent at h
  omega

theorem parent_child (i : Nat) : parent (2 * i + 1) = i ∧ parent (2 * i + 1 + 1) = i := by
  unfold parent
  omega

theorem siftDown_leaf {lt : α → α → Bool} {x : α} : ∀ {n i : Nat} {s : Slots α}, m ≤ 2 * i + 1 →
    siftDown lt x m n i s = s.put i x
  | 0, _, _, _ => rfl
  | n + 1, i, s, h => by
    unfold siftDown
    simp only
    rw [if_neg (by omega), if_neg (by omega)]

/-- **`siftDown` mends an element that is too far up.** -/
theorem siftDown_ordered {lt : α → α → Bool} {x : α} (spec : ∀ a b, lt a b = true ↔ key a < key b) :
    ∀ {n i : Nat} {s : Slots α}, m ≤ i + n → i < m → Down key m i (s.put i x) →
      Ordered key m (siftDown lt x m n i s)
  | 0, i, s, hn, hi, _ => by omega
  | n + 1, i, s, hn, hi, h => by
    have no : ∀ a b, ¬ lt a b = true → key b ≤ key a := fun a b hab => not_lt.1 fun hlt => hab ((spec a b).2 hlt)
    obtain ⟨par1, par2⟩ := parent_child i
    have child : ∀ c, c ≠ i → (s.put i x).slot c = s.slot c := fun c hc => put_slot_ne s x hc
    -- the hole moves to the child `c`, a least one
    have pass : ∀ c, 0 < c → c < m → parent c = i → lt (s.slot c) x = true →
        (∀ d, 0 < d → d < m → parent d = i → key (s.slot c) ≤ key (s.slot d)) →
        Ordered key m (siftDown lt x m n c (s.put i (s.slot c))) := by
      intro c hc hcm hp hlt least
      have hic : i < c := hp ▸ parent_lt hc
      apply siftDown_ordered spec (by omega) hcm
      rw [put_put_eq_swap s x (by omega)]
      apply h.swap_down hc hcm hp
      · unfold Slots.Le
        rw [put_slot_self, child c (by omega)]
        exact le_of_lt ((spec _ _).1 hlt)
      · intro d hd hdm hpd
        have := parent_lt hd
        unfold Slots.Le
        rw [child c (by omega), child d (by omega)]
        exact least d hd hdm hpd
    have stop : (∀ c, 0 < c → c < m → parent c = i → key x ≤ key (s.slot c)) → Ordered key m (s.put i x) := by
      intro hx
      apply h.ordered
      intro c hc hcm hp
      have := parent_lt hc
      unfold Slots.Le
      rw [put_slot_self, child c (by omega)]
      exact hx c hc hcm hp
    unfold siftDown
    simp only
    split
    · split <;> rename_i h0
      · split <;> rename_i h1
        · apply pass _ (by omega) (by omega) par2
          · exact (spec _ _).2 (lt_trans ((spec _ _).1 h1) ((spec _ _).1 h0))
          · intro d hd _ hp
            rcases child_cases hd hp with rfl | rfl
            · exact le_of_lt ((spec _ _).1 h1)
            · exact le_refl _
        · apply pass _ (by omega) (by omega) par1 h0
          intro d hd _ hp
          rcases child_cases hd hp with rfl | rfl
          · exact le_refl _
          · exact no _ _ h1
      · split <;> rename_i h1
        · apply pass _ (by omega) (by omega) par2 h1
          intro d hd _ hp
          rcases child_cases hd hp with rfl | rfl
          · exact le_of_lt (lt_of_lt_of_le ((spec _ _).1 h1) (no _ _ h0))
          · exact le_refl _
        · apply stop
          intro c hc _ hp
          rcases child_cases hc hp with rfl | rfl
          · exact no _ _ h0
          · exact no _ _ h1
    · split <;> rename_i h1
      · have := pass (2 * i + 1) (by omega) (by omega) par1 h1.2 (by
          intro d hd hdm hp
          rcases child_cases hd hp with rfl | rfl
          · exact le_refl _
          · omega)
        rwa [siftDown_leaf (by omega)] at this
      · apply stop
        intro c hc hcm hp
        rcases child_cases hc hp with rfl | rfl
        · exact no _ _ fun e => h1 ⟨by omega, e⟩
        · omega

end

end BinHeap
