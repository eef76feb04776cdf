import Tinywf.CommScheduler
import Mathlib.Algebra.Order.Field.Basic
import Mathlib.Algebra.Order.BigOperators.Group.Finset
import Mathlib.Data.Rat.Cast.Order
import Mathlib.Tactic.Linarith
/-!
# SchedHeap — what the sections do to a group's heap

`Sched.Ok` is what holds between two sections: loads within bounds, and for every group that its heap holds the members
in the order of `target_cmp` and that its loads are the sums of theirs.  `target_cmp` compares ratios (`targetCmp_neg`),
so the sifts restore the order by the rules of `BinHeap`; `Reheaped` is what an operation on one group's heap comes to,
and every section is one such operation after a change of loads or of members.
-/
namespace Tinywf

open BinHeap

variable {τ γ : Type}

namespace Sched

/-! ## `target_cmp` -/

/-- A target's load, as a part of what it can take. -/
def ratio (s : Sched τ γ) (t : τ) : ℚ := (s.target t).curLoad / (s.target t).maxLoad

/-- The bounds on every target's loads. -/
structure Bounded (s : Sched τ γ) : Prop where
  pos : ∀ t, 0 < (s.target t).maxLoad
  lt : ∀ t, (s.target t).maxLoad < 2 ^ 32
  le : ∀ t, (s.target t).curLoad ≤ (s.target t).maxLoad

section
variable {s : Sched τ γ} {a b : τ}

theorem Bounded.product_lt (h : s.Bounded) (a b : τ) : (s.target a).curLoad * (s.target b).maxLoad < 2 ^ 64 := by
  have h1 : (s.target a).curLoad < 2 ^ 32 := lt_of_le_of_lt (h.le a) (h.lt a)
  have h2 := h.lt b
  calc (s.target a).curLoad * (s.target b).maxLoad < 2 ^ 32 * 2 ^ 32 := Nat.mul_lt_mul'' h1 h2
    _ = 2 ^ 64 := by norm_num

theorem Bounded.ratio_lt (h : s.Bounded) : s.ratio a < s.ratio b ↔
    (s.target a).curLoad * (s.target b).maxLoad < (s.target b).curLoad * (s.target a).maxLoad := by
  have ha : (0 : ℚ) < (s.target a).maxLoad := by exact_mod_cast h.pos a
  have hb : (0 : ℚ) < (s.target b).maxLoad := by exact_mod_cast h.pos b
  unfold ratio
  rw [div_lt_div_iff₀ ha hb]
  exact_mod_cast Iff.rfl

theorem Bounded.targetCmp_eq (h : s.Bounded) : s.targetCmp a b =
    if s.ratio a < s.ratio b then -1 else if s.ratio b < s.ratio a then 1 else 0 := by
  unfold targetCmp
  simp only [Nat.mod_eq_of_lt (h.product_lt _ _), h.ratio_lt, gt_iff_lt]

/-- **`target_cmp` compares the loads as parts of what the targets can take.** -/
theorem Bounded.targetCmp_neg (h : s.Bounded) : s.targetCmp a b < 0 ↔ s.ratio a < s.ratio b := by
  rw [h.targetCmp_eq]
  split
  · rename_i h1
    simp only [h1, iff_true]
    omega
  · rename_i h1
    simp only [h1, iff_false]
    split <;> omega

theorem Bounded.targetCmp_le (h : s.Bounded) : s.targetCmp a b ≤ 0 ↔ s.ratio a ≤ s.ratio b := by
  rw [h.targetCmp_eq, ← not_lt (a := s.ratio b)]
  split
  · rename_i h1
    simp only [not_lt_of_gt h1, not_false_eq_true, iff_true]
    omega
  · split
    · rename_i h1
      simp only [h1, not_true_eq_false, iff_false]
      omega
    · rename_i h1
      simp only [h1, not_false_eq_true, iff_true]
      omega

theorem Bounded.lt_spec (hb : s.Bounded) (a b : τ) : decide (s.targetCmp a b < 0) = true ↔ s.ratio a < s.ratio b := by
  rw [decide_eq_true_iff]
  exact hb.targetCmp_neg

theorem Bounded.up_yes (hb : s.Bounded) (k : Int) (a b : τ)
    (h : decide (s.targetCmp a b < if k = 0 then 0 else 1) = true) : s.ratio a ≤ s.ratio b := by
  rw [decide_eq_true_iff] at h
  apply hb.targetCmp_le.1
  split at h <;> omega

theorem Bounded.up_no (hb : s.Bounded) (k : Int) (a b : τ)
    (h : decide (s.targetCmp a b < if k = 0 then 0 else 1) = false) : s.ratio b ≤ s.ratio a := by
  rw [decide_eq_false_iff_not] at h
  rw [← not_lt, ← hb.targetCmp_neg]
  split at h <;> omega

end

/-! ## What holds between two sections -/

/-- The heap and the loads of a group with members `E`. -/
structure GroupOk (s : Sched τ γ) [DecidableEq τ] (g : γ) (E : Finset τ) : Prop where
  holds : Holds (s.group g).heapSize E (s.slots g)
  ordered : Ordered s.ratio (s.group g).heapSize (s.slots g)
  mem_iff : ∀ t, t ∈ E ↔ (s.target t).group = some g
  maxLoad_eq : (s.group g).maxLoad = ∑ t ∈ E, (s.target t).maxLoad
  curLoad_eq : (s.group g).curLoad = ∑ t ∈ E, (s.target t).curLoad
  size_le : (s.group g).heapSize ≤ (s.group g).heapBufSize
  buf_pos : 0 < (s.group g).heapBufSize

structure Ok (s : Sched τ γ) [DecidableEq τ] : Prop extends Bounded s where
  groups : ∀ g, ∃ E, s.GroupOk g E

variable {s s' : Sched τ γ} {g g' : γ} {t u : τ} {E E' : Finset τ} {m : Nat}

theorem slots_slot (s : Sched τ γ) (g : γ) : (s.slots g).slot = (s.group g).tgHeap := rfl

theorem slots_pos (s : Sched τ γ) (g : γ) (t : τ) : (s.slots g).pos t = (s.target t).index := rfl

section
variable [DecidableEq γ]

@[simp] theorem setGroup_group (s : Sched τ γ) (g g' : γ) (x : CommSchedGroup τ) :
    (s.setGroup g x).group g' = if g' = g then x else s.group g' := Function.update_apply ..

@[simp] theorem setGroup_target (s : Sched τ γ) (g : γ) (x : CommSchedGroup τ) : (s.setGroup g x).target = s.target := rfl

@[simp] theorem setSlots_target (s : Sched τ γ) (g : γ) (h : Slots τ) (u : τ) :
    (s.setSlots g h).target u = { s.target u with index := h.pos u } := rfl

@[simp] theorem setSlots_group (s : Sched τ γ) (g g' : γ) (h : Slots τ) :
    (s.setSlots g h).group g' = if g' = g then { s.group g with tgHeap := h.slot } else s.group g' :=
  Function.update_apply ..

@[simp] theorem setSlots_slots (s : Sched τ γ) (g : γ) (h : Slots τ) : (s.setSlots g h).slots g = h := by
  simp only [slots, setSlots_group, setSlots_target, if_true]

@[simp] theorem setSlots_ratio (s : Sched τ γ) (g : γ) (h : Slots τ) : (s.setSlots g h).ratio = s.ratio := rfl

end

variable [DecidableEq τ]

@[simp] theorem setTarget_target (s : Sched τ γ) (t u : τ) (x : CommSchedTarget γ) :
    (s.setTarget t x).target u = if u = t then x else s.target u := Function.update_apply ..

@[simp] theorem setTarget_group (s : Sched τ γ) (t : τ) (x : CommSchedTarget γ) : (s.setTarget t x).group = s.group := rfl

/-- What a group's heap and loads depend on. -/
theorem GroupOk.frame (h : s.GroupOk g E) (group : ∃ n, s'.group g = { s.group g with waitCnt := n })
    (loads : ∀ t ∈ E, (s'.target t).maxLoad = (s.target t).maxLoad ∧ (s'.target t).curLoad = (s.target t).curLoad)
    (index : ∀ t ∈ E, (s'.target t).index = (s.target t).index)
    (mem : ∀ t, (s'.target t).group = some g ↔ (s.target t).group = some g) : s'.GroupOk g E := by
  obtain ⟨n, hn⟩ := group
  have slot : (s'.slots g).slot = (s.slots g).slot := by
    rw [slots_slot, slots_slot, hn]
  have at_slot : ∀ k < (s.group g).heapSize, (s.slots g).slot k ∈ E := fun k hk => h.holds.slot_mem hk
  constructor
  · rw [hn]
    refine ⟨fun k hk => ?_, ?_⟩
    · rw [slot, slots_pos, index _ (at_slot k hk)]
      exact h.holds.pos_slot k hk
    · rw [← h.holds.elems_eq, elems, elems, slot]
  · rw [hn]
    intro c hc hcm
    have := parent_lt hc
    unfold Slots.Le
    rw [slot]
    have same : ∀ k < (s.group g).heapSize, s'.ratio ((s.slots g).slot k) = s.ratio ((s.slots g).slot k) := by
      intro k hk
      unfold ratio
      rw [(loads _ (at_slot k hk)).1, (loads _ (at_slot k hk)).2]
    rw [same c hcm, same _ (lt_trans this hcm)]
    exact h.ordered c hc hcm
  · intro t
    rw [h.mem_iff, mem]
  · rw [hn, Finset.sum_congr rfl fun t ht => (loads t ht).1]
    exact h.maxLoad_eq
  · rw [hn, Finset.sum_congr rfl fun t ht => (loads t ht).2]
    exact h.curLoad_eq
  · rw [hn]
    exact h.size_le
  · rw [hn]
    exact h.buf_pos

/-! ## An operation on one heap -/

/-- `s'` is `s` but for the heap of `g`, which has `m` slots that hold `E` in order. -/
structure Reheaped (s s' : Sched τ γ) (g : γ) (m : Nat) (E : Finset τ) : Prop where
  target : ∀ u, s'.target u = { s.target u with index := (s'.target u).index }
  elsewhere : ∀ u ∉ E, (s'.target u).index = (s.target u).index
  others : ∀ g' ≠ g, s'.group g' = s.group g'
  maxLoad : (s'.group g).maxLoad = (s.group g).maxLoad
  curLoad : (s'.group g).curLoad = (s.group g).curLoad
  waitCnt : (s'.group g).waitCnt = (s.group g).waitCnt
  size : (s'.group g).heapSize = m
  room : m ≤ (s'.group g).heapBufSize
  buf_pos : 0 < (s'.group g).heapBufSize
  holds : Holds m E (s'.slots g)
  ordered : Ordered s.ratio m (s'.slots g)

theorem Reheaped.ratio_eq (h : Reheaped s s' g m E) : s'.ratio = s.ratio := by
  funext u
  unfold ratio
  rw [h.target u]

theorem Reheaped.bounded (h : Reheaped s s' g m E) (hb : s.Bounded) : s'.Bounded := by
  refine ⟨fun u => ?_, fun u => ?_, fun u => ?_⟩ <;> rw [h.target u]
  · exact hb.pos u
  · exact hb.lt u
  · exact hb.le u

theorem Reheaped.groupOk_other (h : Reheaped s s' g m E) (hg : g' ≠ g) (ok : s.GroupOk g' E')
    (disjoint : ∀ t ∈ E, (s.target t).group ≠ some g') : s'.GroupOk g' E' := by
  apply ok.frame
  · exact ⟨(s.group g').waitCnt, h.others g' hg⟩
  · intro u _
    rw [h.target u]
    exact ⟨rfl, rfl⟩
  · intro u hu
    exact h.elsewhere u fun hE => disjoint u hE ((ok.mem_iff u).1 hu)
  · intro u
    rw [h.target u]

variable [DecidableEq γ]

theorem reheaped_of {h : Slots τ} {n : Nat} (target : ∀ u, s'.target u = { s.target u with index := h.pos u })
    (group : ∀ g', s'.group g' = if g' = g then { s.group g with tgHeap := h.slot, heapSize := m, heapBufSize := n }
      else s.group g') (hE : Rearranged m E (s.slots g) h) (ho : Ordered s.ratio m h) (room : m ≤ n) (buf_pos : 0 < n) :
    Reheaped s s' g m E := by
  have hg := group g
  rw [if_pos rfl] at hg
  have hslots : s'.slots g = h := by simp only [slots, hg, target]
  constructor
  · intro u
    rw [target u]
  · intro u hu
    rw [target u]
    exact hE.others u hu
  · intro g' hg'
    rw [group g', if_neg hg']
  · rw [hg]
  · rw [hg]
  · rw [hg]
  · rw [hg]
  · rw [hg]
    exact room
  · rw [hg]
    exact buf_pos
  · rw [hslots]
    exact hE.holds
  · rw [hslots]
    exact ho

theorem reheaped_setSlots {h : Slots τ} (hE : Rearranged (s.group g).heapSize E (s.slots g) h)
    (ho : Ordered s.ratio (s.group g).heapSize h) (room : (s.group g).heapSize ≤ (s.group g).heapBufSize)
    (buf_pos : 0 < (s.group g).heapBufSize) : Reheaped s (s.setSlots g h) g (s.group g).heapSize E :=
  reheaped_of (fun _ => rfl) (setSlots_group s g · h) hE ho room buf_pos

/-! ### The sifts -/

theorem heapify_target (s : Sched τ γ) (g : γ) (top : Nat) (u : τ) :
    (s.heapify g top).target u = { s.target u with index := ((s.heapify g top).target u).index } := rfl

theorem heapify_waitCnt (s : Sched τ γ) (g g' : γ) (top : Nat) :
    ((s.heapify g top).group g').waitCnt = (s.group g').waitCnt := by
  rw [heapify, setSlots_group]
  split
  · rename_i e
    rw [e]
  · rfl

theorem heapAdjust_target (s : Sched τ γ) (g : γ) (i : Nat) (k : Int) (u : τ) :
    (s.heapAdjust g i k).target u = { s.target u with index := ((s.heapAdjust g i k).target u).index } := rfl

theorem heapAdjust_waitCnt (s : Sched τ γ) (g g' : γ) (i : Nat) (k : Int) :
    ((s.heapAdjust g i k).group g').waitCnt = (s.group g').waitCnt := by
  rw [heapAdjust, setSlots_group]
  split
  · rename_i e
    rw [e]
  · rfl

/-- **`heapify` mends the heap below `top`.** -/
theorem heapify_spec {top : Nat} (hb : s.Bounded) (hE : Holds (s.group g).heapSize E (s.slots g))
    (ht : top < (s.group g).heapSize) (hd : Down s.ratio (s.group g).heapSize top (s.slots g)) :
    ∃ h, s.heapify g top = s.setSlots g h ∧ Rearranged (s.group g).heapSize E (s.slots g) h ∧
      Ordered s.ratio (s.group g).heapSize h := by
  have self : (s.slots g).put top ((s.group g).tgHeap top) = s.slots g := hE.put_self ht
  refine ⟨_, rfl, siftDown_rearranged ht ?_, siftDown_ordered hb.lt_spec (by omega) ht ?_⟩
  · rw [self]
    exact hE
  · rw [self]
    exact hd

/-- **`heap_adjust` mends the heap above `index`.** -/
theorem heapAdjust_spec {index : Nat} (k : Int) (hb : s.Bounded) (hE : Holds m E (s.slots g)) (hi : index < m)
    (hu : Up s.ratio m index (s.slots g)) :
    ∃ h, s.heapAdjust g index k = s.setSlots g h ∧ Rearranged m E (s.slots g) h ∧ Ordered s.ratio m h := by
  have self : (s.slots g).put index ((s.group g).tgHeap index) = s.slots g := hE.put_self hi
  refine ⟨_, rfl, siftUp_rearranged hi ?_, siftUp_ordered (hb.up_yes k) (hb.up_no k) (le_refl _) hi ?_⟩
  · rw [self]
    exact hE
  · rw [self]
    exact hu

theorem heapAdjust_down {index : Nat} (k : Int) (hb : s.Bounded) (hE : Holds m E (s.slots g)) (hi : index < m)
    (hh : Hole s.ratio m index (s.slots g)) :
    ∃ h, s.heapAdjust g index k = s.setSlots g h ∧ Rearranged m E (s.slots g) h ∧
      Down s.ratio m (h.pos ((s.group g).tgHeap index)) h := by
  have self : (s.slots g).put index ((s.group g).tgHeap index) = s.slots g := hE.put_self hi
  have hE' : Holds m E ((s.slots g).put index ((s.group g).tgHeap index)) := by
    rw [self]
    exact hE
  refine ⟨_, rfl, siftUp_rearranged hi hE', siftUp_down (hb.up_yes k) (hb.up_no k) (le_refl _) hi hE' ?_⟩
  rw [self]
  exact hh

/-! ### Members -/

theorem heapInsert_spec {grown : Bool} (ok : s.GroupOk g E) (hb : s.Bounded) (ht : t ∉ E)
    (h : s.heapInsert g t grown = some s') : Reheaped s s' g ((s.group g).heapSize + 1) (insert t E) := by
  unfold heapInsert at h
  simp only at h
  split at h
  · cases h
  generalize hs1 : (if decide ((s.group g).heapSize = (s.group g).heapBufSize) = true then
    s.setGroup g { s.group g with heapBufSize := 2 * (s.group g).heapBufSize } else s) = s1 at h
  have buf : ∃ n, (s.group g).heapSize + 1 ≤ n ∧ s1 = s.setGroup g { s.group g with heapBufSize := n } := by
    have h1 := ok.size_le
    have h2 := ok.buf_pos
    rw [← hs1]
    split
    · exact ⟨_, by omega, rfl⟩
    · rename_i hf
      rw [decide_eq_true_iff] at hf
      exact ⟨(s.group g).heapBufSize, by omega, by rw [setGroup, Function.update_eq_self]⟩
  obtain ⟨n, hn, rfl⟩ := buf
  generalize hs2 : s.setGroup g { s.group g with heapBufSize := n } = s1 at h
  have slots1 : s1.slots g = s.slots g := by simp only [← hs2, slots, setGroup_group, setGroup_target, if_true]
  rw [slots1] at h
  have hE := ok.holds.put_last ht
  have hb2 : (s1.setSlots g ((s.slots g).put (s.group g).heapSize t)).Bounded := by
    rw [← hs2]
    exact ⟨hb.pos, hb.lt, hb.le⟩
  obtain ⟨h', heq, hr, ho⟩ := heapAdjust_spec (g := g) 0 hb2 (by rw [setSlots_slots]; exact hE) (Nat.lt_succ_self _)
    (by rw [setSlots_slots, ← hs2]; exact ok.ordered.put_last t)
  rw [setSlots_slots] at hr
  rw [heq] at h
  cases h
  rw [← hs2] at ho ⊢
  refine reheaped_of (h := h') (n := n) (fun u => rfl) (fun g' => ?_) ((Rearranged.put hE (Nat.lt_succ_self _)).trans hr)
    ho hn (by omega)
  simp only [setGroup_group, setSlots_group, if_true]
  split <;> rfl

theorem heapRemove_spec (ok : s.GroupOk g E) (hb : s.Bounded) (ht : t ∈ E) :
    Reheaped s (s.heapRemove g (s.target t).index) g ((s.group g).heapSize - 1) (E.erase t) := by
  have hlt : (s.target t).index < (s.group g).heapSize := ok.holds.pos_lt ht
  have hat : (s.slots g).slot (s.target t).index = t := ok.holds.slot_pos ht
  obtain ⟨m, hm⟩ : ∃ m, (s.group g).heapSize = m + 1 := ⟨(s.group g).heapSize - 1, by omega⟩
  have hE := ok.holds
  have ho := ok.ordered
  have hroom := ok.size_le
  have hbuf := ok.buf_pos
  rw [hm] at hE ho hroom
  unfold heapRemove
  rw [hm]
  simp only [Nat.add_sub_cancel]
  generalize hs1 : s.setGroup g { s.group g with heapSize := m } = s1
  have slots1 : s1.slots g = s.slots g := by simp only [← hs1, slots, setGroup_group, setGroup_target, if_true]
  rw [slots1]
  split <;> rename_i hne
  · have hi : (s.target t).index < m := by omega
    have hE' := hE.put_over hi
    rw [hat] at hE'
    generalize hs2 : s1.setSlots g ((s.slots g).put (s.target t).index ((s.group g).tgHeap m)) = s2
    have hb2 : s2.Bounded := by
      rw [← hs2, ← hs1]
      exact ⟨hb.pos, hb.lt, hb.le⟩
    have hslots2 : s2.slots g = (s.slots g).put (s.target t).index ((s.group g).tgHeap m) := by
      rw [← hs2, setSlots_slots]
    obtain ⟨h2, heq2, hr2, hd2⟩ := heapAdjust_down (g := g) 0 hb2 (by rw [hslots2]; exact hE') hi
      (by rw [hslots2, ← hs2, ← hs1]; exact ho.put_over hi _)
    have hlast : (s2.group g).tgHeap (s.target t).index = (s.group g).tgHeap m := by
      rw [← slots_slot, hslots2, put_slot_self]
    rw [hlast] at hd2
    have hmem : (s.group g).tgHeap m ∈ E.erase t := by
      have := hE'.slot_mem hi
      rwa [put_slot_self] at this
    rw [heq2, setSlots_target]
    simp only
    generalize hs3 : s2.setSlots g h2 = s3
    have hb3 : s3.Bounded := by
      rw [← hs3]
      exact ⟨hb2.pos, hb2.lt, hb2.le⟩
    have hsize3 : (s3.group g).heapSize = m := by
      simp only [← hs3, ← hs2, ← hs1, setSlots_group, setGroup_group, if_true]
    have hslots3 : s3.slots g = h2 := by rw [← hs3, setSlots_slots]
    obtain ⟨h3, heq3, hr3, ho3⟩ := heapify_spec (s := s3) (g := g) (E := E.erase t) hb3
      (by rw [hsize3, hslots3]; exact hr2.holds) (by rw [hsize3]; exact hr2.holds.pos_lt hmem)
      (by rw [hsize3, hslots3, ← hs3]; exact hd2)
    rw [hsize3] at hr3 ho3
    rw [hslots3] at hr3
    rw [hslots2] at hr2
    rw [heq3]
    have hput := Rearranged.put hE' hi
    refine reheaped_of (h := h3) (n := (s.group g).heapBufSize) (fun u => ?_) (fun g' => ?_) ((hput.trans hr2).trans hr3)
      ?_ (by omega) hbuf
    · rw [← hs3, ← hs2, ← hs1]
      rfl
    · simp only [← hs3, ← hs2, ← hs1, setGroup_group, setSlots_group, if_true]
      split <;> rfl
    · rw [← hs3, ← hs2, ← hs1] at ho3
      exact ho3
  · have hi : (s.target t).index = m := by omega
    have hE' := hE.drop_last
    rw [← hi, hat] at hE'
    refine reheaped_of (h := s.slots g) (n := (s.group g).heapBufSize) (fun u => ?_) (fun g' => ?_) ⟨hi ▸ hE', fun _ _ => rfl⟩
      ho.drop_last (by omega) hbuf
    · rw [← hs1]
      rfl
    · simp only [← hs1, setGroup_group]
      rfl

end Sched

end Tinywf
