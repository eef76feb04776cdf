import Tinywf.SchedHeap
/-!
# SchedSections — every section keeps what holds between two

The sections one by one: `take_ok`, `release_ok`, `add_ok`, `remove_ok`.  That a group takes from its first target only
what the target can give is an averaging argument (`root_spec`): a group with room has a member with room, and the
first target's load is the least part of what a member can take.
-/
namespace Tinywf

open BinHeap

variable {τ γ : Type} [DecidableEq τ]

namespace Sched

variable {s s' : Sched τ γ} {g : γ} {t : τ} {E : Finset τ}

/-! ## The first target of a group -/

/-- **A group with room has a first target with room, and no member has a smaller part of its load.** -/
theorem root_spec (h : s.Ok) (hg : (s.group g).curLoad < (s.group g).maxLoad) :
    0 < (s.group g).heapSize ∧ (s.target ((s.group g).tgHeap 0)).group = some g ∧
      (s.target ((s.group g).tgHeap 0)).index = 0 ∧
      (s.target ((s.group g).tgHeap 0)).curLoad < (s.target ((s.group g).tgHeap 0)).maxLoad ∧
      ∀ u, (s.target u).group = some g → s.ratio ((s.group g).tgHeap 0) ≤ s.ratio u := by
  obtain ⟨E, ok⟩ := h.groups g
  have room : ∃ u ∈ E, (s.target u).curLoad < (s.target u).maxLoad := by
    rw [ok.curLoad_eq, ok.maxLoad_eq] at hg
    exact Finset.exists_lt_of_sum_lt hg
  have least : ∀ u ∈ E, s.ratio ((s.group g).tgHeap 0) ≤ s.ratio u := by
    intro u hu
    have := ok.ordered.root_le (ok.holds.pos_lt hu)
    unfold Slots.Le at this
    rwa [ok.holds.slot_pos hu] at this
  obtain ⟨u, hu, hlt⟩ := room
  have hpos : 0 < (s.group g).heapSize := lt_of_le_of_lt (Nat.zero_le _) (ok.holds.pos_lt hu)
  refine ⟨hpos, (ok.mem_iff _).1 (ok.holds.slot_mem hpos), ok.holds.pos_slot 0 hpos, ?_,
    fun v hv => least v ((ok.mem_iff v).2 hv)⟩
  have hmax : ∀ v, (0 : ℚ) < (s.target v).maxLoad := fun v => by exact_mod_cast h.pos v
  have h1 : s.ratio u < 1 := by
    unfold ratio
    rw [div_lt_one (hmax u)]
    exact_mod_cast hlt
  have h2 := lt_of_le_of_lt (least u hu) h1
  unfold ratio at h2
  rw [div_lt_one (hmax _)] at h2
  exact_mod_cast h2

/-! ## The load of a target changes -/

/-- The load of `t` is `c`. -/
def setCurLoad (s : Sched τ γ) (t : τ) (c : Nat) : Sched τ γ := s.setTarget t { s.target t with curLoad := c }

theorem setCurLoad_target (s : Sched τ γ) (t u : τ) (c : Nat) : (s.setCurLoad t c).target u =
    { s.target u with curLoad := if u = t then c else (s.target u).curLoad } := by
  rw [setCurLoad, setTarget_target]
  split
  · rename_i e
    rw [e]
  · rfl

theorem setCurLoad_bounded (h : s.Bounded) {c : Nat} (hc : c ≤ (s.target t).maxLoad) : (s.setCurLoad t c).Bounded := by
  refine ⟨fun u => ?_, fun u => ?_, fun u => ?_⟩ <;> rw [setCurLoad_target]
  · exact h.pos u
  · exact h.lt u
  · simp only
    split
    · rename_i e
      rw [e]
      exact hc
    · exact h.le u

/-- The loads of a group `t` is not in stay what they were. -/
theorem setCurLoad_groupOk (ok : s.GroupOk g E) (ht : (s.target t).group ≠ some g) (c : Nat) :
    (s.setCurLoad t c).GroupOk g E := by
  refine ok.frame ⟨_, rfl⟩ (fun u hu => ?_) (fun u _ => ?_) (fun u => ?_) <;> rw [setCurLoad_target]
  have hne : u ≠ t := fun e => ht (e ▸ (ok.mem_iff u).1 hu)
  simp only [hne, if_false, and_self]

theorem setCurLoad_ok (h : s.Ok) (ht : (s.target t).group = none) {c : Nat} (hc : c ≤ (s.target t).maxLoad) :
    (s.setCurLoad t c).Ok := by
  refine ⟨setCurLoad_bounded h.toBounded hc, fun g => ?_⟩
  obtain ⟨E, ok⟩ := h.groups g
  exact ⟨E, setCurLoad_groupOk ok (by rw [ht]; simp) c⟩

variable [DecidableEq γ]

theorem setWaitCnt_target (s : Sched τ γ) (n : Nat) (o : CommSchedObject τ γ) (u : τ) :
    (s.setWaitCnt n o).target u = { s.target u with waitCnt := ((s.setWaitCnt n o).target u).waitCnt } := by
  cases o with
  | target t =>
    rw [setWaitCnt, setTarget_target]
    split
    · rename_i e
      rw [e]
    · rfl
  | group g => rfl

theorem setWaitCnt_group (s : Sched τ γ) (n : Nat) (o : CommSchedObject τ γ) (g : γ) :
    (s.setWaitCnt n o).group g = { s.group g with waitCnt := ((s.setWaitCnt n o).group g).waitCnt } := by
  cases o with
  | target t => rfl
  | group g' =>
    rw [setWaitCnt, setGroup_group]
    split
    · rename_i e
      rw [e]
    · rfl

theorem setWaitCnt_ok (h : s.Ok) (n : Nat) (o : CommSchedObject τ γ) : (s.setWaitCnt n o).Ok := by
  refine ⟨⟨fun u => ?_, fun u => ?_, fun u => ?_⟩, fun g => ?_⟩
  · rw [setWaitCnt_target]
    exact h.pos u
  · rw [setWaitCnt_target]
    exact h.lt u
  · rw [setWaitCnt_target]
    exact h.le u
  · obtain ⟨E, ok⟩ := h.groups g
    refine ⟨E, ok.frame ⟨_, setWaitCnt_group s n o g⟩ (fun u _ => ?_) (fun u _ => ?_) fun u => ?_⟩ <;>
      rw [setWaitCnt_target]
    exact ⟨rfl, rfl⟩

/-- The load of `t` is `c`, that of its group `c'`. -/
def setLoads (s : Sched τ γ) (g : γ) (t : τ) (c c' : Nat) : Sched τ γ :=
  (s.setCurLoad t c).setGroup g { s.group g with curLoad := c' }

theorem setLoads_target (s : Sched τ γ) (g : γ) (t u : τ) (c c' : Nat) : (s.setLoads g t c c').target u =
    { s.target u with curLoad := if u = t then c else (s.target u).curLoad } := by
  rw [setLoads, setGroup_target, setCurLoad_target]

theorem setLoads_group (s : Sched τ γ) (g : γ) (t : τ) (c c' : Nat) :
    (s.setLoads g t c c').group g = { s.group g with curLoad := c' } := by
  rw [setLoads, setGroup_group, if_pos rfl]

theorem setLoads_waitCnt (s : Sched τ γ) (g g' : γ) (t : τ) (c c' : Nat) :
    ((s.setLoads g t c c').group g').waitCnt = (s.group g').waitCnt := by
  rw [setLoads, setGroup_group]
  split
  · rename_i e
    rw [e]
  · rfl

theorem setLoads_slots (s : Sched τ γ) (g : γ) (t : τ) (c c' : Nat) : (s.setLoads g t c c').slots g = s.slots g := by
  simp only [slots, setLoads_group, setLoads_target]

theorem setLoads_bounded (h : s.Bounded) {c : Nat} (hc : c ≤ (s.target t).maxLoad) (c' : Nat) :
    (s.setLoads g t c c').Bounded := by
  have := setCurLoad_bounded h hc
  exact ⟨this.pos, this.lt, this.le⟩

theorem setLoads_ratio (s : Sched τ γ) (g : γ) {t u : τ} (hu : u ≠ t) (c c' : Nat) :
    (s.setLoads g t c c').ratio u = s.ratio u := by
  unfold ratio
  rw [setLoads_target]
  simp only [hu, if_false]

theorem setLoads_ratio_self (s : Sched τ γ) (g : γ) (t : τ) (c c' : Nat) :
    (s.setLoads g t c c').ratio t = c / (s.target t).maxLoad := by
  unfold ratio
  rw [setLoads_target]
  simp only [if_true]

/-- Only the slot of `t` has another ratio. -/
theorem setLoads_same (ok : s.GroupOk g E) (ht : t ∈ E) (c c' : Nat) : ∀ k < (s.group g).heapSize,
    k ≠ (s.target t).index → (s.setLoads g t c c').ratio ((s.slots g).slot k) = s.ratio ((s.slots g).slot k) := by
  intro k hk hne
  refine setLoads_ratio s g (fun e => hne ?_) c c'
  exact ok.holds.slot_inj hk (ok.holds.pos_lt ht) (e.trans (ok.holds.slot_pos ht).symm)

/-- **A change of one load, the group's load with it and the heap mended, keeps everything.** -/
theorem setLoads_ok (h : s.Ok) (ok : s.GroupOk g E) (ht : t ∈ E) {c c' : Nat} (hc : c ≤ (s.target t).maxLoad)
    (hsum : c' + (s.target t).curLoad = c + (s.group g).curLoad)
    (hr : Reheaped (s.setLoads g t c c') s' g (s.group g).heapSize E) : s'.Ok := by
  have target : ∀ u, s'.target u = { s.target u with
      curLoad := if u = t then c else (s.target u).curLoad, index := (s'.target u).index } := by
    intro u
    rw [hr.target u, setLoads_target]
  refine ⟨hr.bounded (setLoads_bounded h.toBounded hc c'), fun g' => ?_⟩
  by_cases hg : g' = g
  · rw [hg]
    refine ⟨E, ⟨hr.size ▸ hr.holds, ?_, fun u => ?_, ?_, ?_, hr.size ▸ hr.room, hr.buf_pos⟩⟩
    · rw [hr.size, hr.ratio_eq]
      exact hr.ordered
    · rw [ok.mem_iff, target u]
    · rw [hr.maxLoad, setLoads_group]
      simp only
      rw [ok.maxLoad_eq]
      apply Finset.sum_congr rfl
      intro u _
      rw [target u]
    · rw [hr.curLoad, setLoads_group]
      simp only
      have h1 := Finset.add_sum_erase E (fun u => (s.target u).curLoad) ht
      have h2 := Finset.add_sum_erase E (fun u => (s'.target u).curLoad) ht
      have h3 : ∑ u ∈ E.erase t, (s'.target u).curLoad = ∑ u ∈ E.erase t, (s.target u).curLoad := by
        apply Finset.sum_congr rfl
        intro u hu
        rw [target u]
        simp only [Finset.ne_of_mem_erase hu, if_false]
      have h4 : (s'.target t).curLoad = c := by rw [target t]; simp only [if_true]
      have h5 := ok.curLoad_eq
      omega
  · obtain ⟨E', ok'⟩ := h.groups g'
    have out : ∀ u ∈ E, (s.target u).group ≠ some g' := by
      intro u hu e
      rw [(ok.mem_iff u).1 hu] at e
      exact hg (Option.some.inj e).symm
    refine ⟨E', hr.groupOk_other hg ?_ fun u hu => ?_⟩
    · have hgroup : (s.setLoads g t c c').group g' = (s.setCurLoad t c).group g' := by
        rw [setLoads, setGroup_group, if_neg hg]
      exact (setCurLoad_groupOk ok' (out t ht) c).frame ⟨_, hgroup⟩ (fun _ _ => ⟨rfl, rfl⟩) (fun _ _ => rfl)
        fun _ => Iff.rfl
    · rw [setLoads_target]
      exact out u hu

/-! ## Taking a load -/

theorem takeTarget_eq (hg : (s.target t).group = some g) : s.takeTarget t =
    (s.setLoads g t ((s.target t).curLoad + 1) ((s.group g).curLoad + 1)).heapify g (s.target t).index := by
  unfold takeTarget
  rw [hg]
  rfl

theorem takeTarget_none (hg : (s.target t).group = none) : s.takeTarget t = s.setCurLoad t ((s.target t).curLoad + 1) := by
  unfold takeTarget
  rw [hg]
  rfl

theorem takeTarget_target (s : Sched τ γ) (t u : τ) : (s.takeTarget t).target u = { s.target u with
    curLoad := if u = t then (s.target t).curLoad + 1 else (s.target u).curLoad
    index := ((s.takeTarget t).target u).index } := by
  cases hg : (s.target t).group with
  | none => rw [takeTarget_none hg, setCurLoad_target]
  | some g => rw [takeTarget_eq hg, heapify_target, setLoads_target]

theorem takeTarget_waitCnt (s : Sched τ γ) (t : τ) (g : γ) :
    ((s.takeTarget t).group g).waitCnt = (s.group g).waitCnt := by
  cases hg : (s.target t).group with
  | none =>
    rw [takeTarget_none hg]
    rfl
  | some g' => rw [takeTarget_eq hg, heapify_waitCnt, setLoads_waitCnt]

/-- What a group does with its first target is what the target would do. -/
theorem takeGroup_eq (h : s.Ok) (hg : (s.group g).curLoad < (s.group g).maxLoad) :
    s.takeGroup g = s.takeTarget ((s.group g).tgHeap 0) := by
  obtain ⟨-, hroot, hindex, -, -⟩ := root_spec h hg
  rw [takeTarget_eq hroot, hindex]
  rfl

/-- **A load put on a target that can take it keeps everything.** -/
theorem takeTarget_ok (h : s.Ok) (ht : (s.target t).curLoad < (s.target t).maxLoad) : (s.takeTarget t).Ok := by
  cases hg : (s.target t).group with
  | none =>
    rw [takeTarget_none hg]
    exact setCurLoad_ok h hg ht
  | some g =>
    obtain ⟨E, ok⟩ := h.groups g
    have htE : t ∈ E := (ok.mem_iff t).2 hg
    have hlt : (s.target t).index < (s.group g).heapSize := ok.holds.pos_lt htE
    have hat : (s.slots g).slot (s.target t).index = t := ok.holds.slot_pos htE
    have hd : Down (s.setLoads g t ((s.target t).curLoad + 1) ((s.group g).curLoad + 1)).ratio (s.group g).heapSize
        (s.target t).index (s.slots g) := by
      apply ok.ordered.raised hlt (setLoads_same ok htE _ _)
      rw [hat, setLoads_ratio_self]
      apply div_le_div_of_nonneg_right _ (Nat.cast_nonneg _)
      exact_mod_cast Nat.le_succ _
    rw [takeTarget_eq hg]
    obtain ⟨h', heq, hr, ho⟩ := heapify_spec (g := g) (setLoads_bounded h.toBounded ht ((s.group g).curLoad + 1))
      (by rw [setLoads_slots, setLoads_group]; exact ok.holds) (by rw [setLoads_group]; exact hlt)
      (by rw [setLoads_slots, setLoads_group]; exact hd)
    have re := reheaped_setSlots hr ho (by rw [setLoads_group]; exact ok.size_le) (by rw [setLoads_group]; exact ok.buf_pos)
    rw [← heq, setLoads_group] at re
    exact setLoads_ok h ok htE ht (by omega) re

/-- Where `acquire` on `o` puts a load it can take: on `t`, which can take it. -/
structure Takes (s : Sched τ γ) (o : CommSchedObject τ γ) (t : τ) : Prop where
  room : s.curLoad o < s.maxLoad o
  fits : (s.target t).curLoad < (s.target t).maxLoad
  own : ∀ u, o = .target u → t = u
  root : ∀ g, o = .group g → t = (s.group g).tgHeap 0 ∧ (s.target t).group = some g

theorem take_takes (h : s.Ok) (o : CommSchedObject τ γ) (room : s.curLoad o < s.maxLoad o) :
    ∃ t, s.Takes o t ∧ s.take o = (s.takeTarget t, .got t) := by
  cases o with
  | target t =>
    refine ⟨t, ⟨room, room, fun u e => ?_, fun g e => ?_⟩, rfl⟩
    · cases e
      rfl
    · cases e
  | group g =>
    obtain ⟨-, hroot, -, hlt, -⟩ := root_spec h room
    refine ⟨(s.group g).tgHeap 0, ⟨room, hlt, fun u e => ?_, fun g' e => ?_⟩, ?_⟩
    · cases e
    · cases e
      exact ⟨rfl, hroot⟩
    · rw [take, takeGroup_eq h room]

/-- What `acquire` can do. -/
theorem acquire_cases (h : s.Ok) (o : CommSchedObject τ γ) (w : Int) :
    (s.maxLoad o ≤ s.curLoad o ∧ w ≠ 0 ∧ s.acquire o w = (s.setWaitCnt (s.waitCnt o + 1) o, .wait)) ∨
    (s.maxLoad o ≤ s.curLoad o ∧ w = 0 ∧ s.acquire o w = (s, .fail .EAGAIN)) ∨
    ∃ t, s.Takes o t ∧ s.acquire o w = (s.takeTarget t, .got t) := by
  unfold acquire
  split
  · rename_i hfull
    split
    · rename_i hw
      exact .inl ⟨hfull, hw, rfl⟩
    · rename_i hw
      exact .inr (.inl ⟨hfull, not_not.1 hw, rfl⟩)
  · exact .inr (.inr (take_takes h o (by omega)))

/-- What `acquire` can do once it is woken. -/
theorem resume_cases (h : s.Ok) (o : CommSchedObject τ γ) (ret : Option Errno) :
    (s.maxLoad o ≤ s.curLoad o ∧ ret = none ∧
      s.resume o ret = ((s.setWaitCnt (s.waitCnt o - 1) o).setWaitCnt (s.waitCnt o - 1 + 1) o, .wait)) ∨
    (s.maxLoad o ≤ s.curLoad o ∧ ∃ e, ret = some e ∧ s.resume o ret = (s.setWaitCnt (s.waitCnt o - 1) o, .fail e)) ∨
    ∃ t, s.Takes o t ∧ s.resume o ret = ((s.setWaitCnt (s.waitCnt o - 1) o).takeTarget t, .got t) := by
  have hmax : (s.setWaitCnt (s.waitCnt o - 1) o).maxLoad o = s.maxLoad o := by
    cases o <;> simp [setWaitCnt, maxLoad]
  have hcur : (s.setWaitCnt (s.waitCnt o - 1) o).curLoad o = s.curLoad o := by
    cases o <;> simp [setWaitCnt, curLoad]
  have hcnt : (s.setWaitCnt (s.waitCnt o - 1) o).waitCnt o = s.waitCnt o - 1 := by
    cases o <;> simp [setWaitCnt, waitCnt]
  unfold resume
  simp only [hmax, hcur, hcnt]
  split
  · rename_i hfull
    cases ret with
    | none => exact .inl ⟨hfull, rfl, rfl⟩
    | some e => exact .inr (.inl ⟨hfull, e, rfl, rfl⟩)
  · rename_i hroom
    obtain ⟨t, ht, e⟩ := take_takes (setWaitCnt_ok h (s.waitCnt o - 1) o) o (by omega)
    refine .inr (.inr ⟨t, ⟨by omega, ?_, ht.own, fun g hg => ?_⟩, e⟩)
    · have := ht.fits
      rwa [setWaitCnt_target] at this
    · obtain ⟨h1, h2⟩ := ht.root g hg
      rw [setWaitCnt_group] at h1
      rw [setWaitCnt_target] at h2
      exact ⟨h1, h2⟩

/-! ## Releasing -/

theorem release_eq (hg : (s.target t).group = some g) (k : Int) : (s.release t k).1 =
    (s.setLoads g t ((s.target t).curLoad - 1) ((s.group g).curLoad - 1)).heapAdjust g (s.target t).index k := by
  have hindex : ((s.setLoads g t ((s.target t).curLoad - 1) ((s.group g).curLoad - 1)).target t).index =
      (s.target t).index := by rw [setLoads_target]
  rw [← hindex]
  unfold release
  simp only
  split
  · rename_i g' e
    rw [hg] at e
    cases e
    rfl
  · rename_i e
    rw [hg] at e
    cases e

theorem release_none (hg : (s.target t).group = none) (k : Int) :
    (s.release t k).1 = s.setCurLoad t ((s.target t).curLoad - 1) := by
  unfold release
  simp only
  split
  · rename_i g' e
    rw [hg] at e
    cases e
  · rfl

theorem release_target (s : Sched τ γ) (t u : τ) (k : Int) : (s.release t k).1.target u = { s.target u with
    curLoad := if u = t then (s.target t).curLoad - 1 else (s.target u).curLoad
    index := ((s.release t k).1.target u).index } := by
  cases hg : (s.target t).group with
  | none => rw [release_none hg, setCurLoad_target]
  | some g => rw [release_eq hg, heapAdjust_target, setLoads_target]

theorem release_waitCnt (s : Sched τ γ) (t : τ) (k : Int) (g : γ) :
    ((s.release t k).1.group g).waitCnt = (s.group g).waitCnt := by
  cases hg : (s.target t).group with
  | none =>
    rw [release_none hg]
    rfl
  | some g' => rw [release_eq hg, heapAdjust_waitCnt, setLoads_waitCnt]

/-- **Releasing a load keeps everything.** -/
theorem release_ok (h : s.Ok) (ht : 0 < (s.target t).curLoad) (k : Int) : (s.release t k).1.Ok := by
  have hc : (s.target t).curLoad - 1 ≤ (s.target t).maxLoad := by
    have := h.le t
    omega
  cases hg : (s.target t).group with
  | none =>
    rw [release_none hg]
    exact setCurLoad_ok h hg hc
  | some g =>
    obtain ⟨E, ok⟩ := h.groups g
    have htE : t ∈ E := (ok.mem_iff t).2 hg
    have hlt : (s.target t).index < (s.group g).heapSize := ok.holds.pos_lt htE
    have hat : (s.slots g).slot (s.target t).index = t := ok.holds.slot_pos htE
    have hsum : (s.target t).curLoad ≤ (s.group g).curLoad := by
      rw [ok.curLoad_eq]
      exact Finset.single_le_sum (f := fun u => (s.target u).curLoad) (fun _ _ => Nat.zero_le _) htE
    have hu : Up (s.setLoads g t ((s.target t).curLoad - 1) ((s.group g).curLoad - 1)).ratio (s.group g).heapSize
        (s.target t).index (s.slots g) := by
      apply ok.ordered.lowered hlt (setLoads_same ok htE _ _)
      rw [hat, setLoads_ratio_self]
      apply div_le_div_of_nonneg_right _ (Nat.cast_nonneg _)
      exact_mod_cast Nat.sub_le _ _
    rw [release_eq hg]
    obtain ⟨h', heq, hr, ho⟩ := heapAdjust_spec (g := g) (E := E) k
      (setLoads_bounded h.toBounded hc ((s.group g).curLoad - 1))
      (by rw [setLoads_slots]; exact ok.holds) hlt (by rw [setLoads_slots]; exact hu)
    have size : ((s.setLoads g t ((s.target t).curLoad - 1) ((s.group g).curLoad - 1)).group g).heapSize =
        (s.group g).heapSize := by rw [setLoads_group]
    rw [← size] at hr ho
    have re := reheaped_setSlots hr ho (by rw [setLoads_group]; exact ok.size_le) (by rw [setLoads_group]; exact ok.buf_pos)
    rw [← heq, size] at re
    exact setLoads_ok h ok htE hc (by omega) re

/-! ## Members come and go -/

variable {grown : Bool} {s1 : Sched τ γ}

/-- The group's loads once `t` is added. -/
def joined (s : Sched τ γ) (g : γ) (t : τ) : Sched τ γ :=
  (s.setTarget t { s.target t with group := some g }).setGroup g { s.group g with
    maxLoad := (s.group g).maxLoad + (s.target t).maxLoad
    curLoad := (s.group g).curLoad + (s.target t).curLoad }

theorem room_of_heapInsert {s s1 : Sched τ γ} {g : γ} {t : τ} {grown : Bool} (h : s.heapInsert g t grown = some s1) :
    (s.group g).heapSize ≠ (s.group g).heapBufSize ∨ grown = true := by
  by_contra hfull
  obtain ⟨hsize, hgrown⟩ := not_or.1 hfull
  unfold heapInsert at h
  rw [not_not.1 hsize, Bool.eq_false_of_not_eq_true hgrown] at h
  simp at h

/-- What `add` can do: put the target into the heap, or nothing. -/
theorem add_cases (s : Sched τ γ) (g : γ) (t : τ) (grown : Bool) :
    (∃ s1, (s.target t).group = none ∧ (s.target t).waitCnt = 0 ∧ s.heapInsert g t grown = some s1 ∧
      (s.add g t grown).1 = s1.joined g t ∧ (s.add g t grown).2.1 =
        if 0 < ((s1.joined g t).group g).waitCnt ∧ ((s1.joined g t).group g).curLoad < ((s1.joined g t).group g).maxLoad
          then some (.group g) else none) ∨
    ((s.add g t grown).1 = s ∧ (s.add g t grown).2.1 = none) := by
  unfold add
  split
  · rename_i hc
    split
    · rename_i s1 hs
      have hj : (s1.setTarget t { s1.target t with group := some g }).setGroup g
          { (s1.setTarget t { s1.target t with group := some g }).group g with
            maxLoad := ((s1.setTarget t { s1.target t with group := some g }).group g).maxLoad +
              ((s1.setTarget t { s1.target t with group := some g }).target t).maxLoad
            curLoad := ((s1.setTarget t { s1.target t with group := some g }).group g).curLoad +
              ((s1.setTarget t { s1.target t with group := some g }).target t).curLoad } = s1.joined g t := by
        simp only [joined, setTarget_target, setTarget_group, if_true]
      refine .inl ⟨s1, hc.1, hc.2, hs, ?_⟩
      simp only [hj, decide_eq_true_eq]
      exact ⟨trivial, trivial⟩
    · exact .inr ⟨rfl, rfl⟩
  · split
    · exact .inr ⟨rfl, rfl⟩
    · split <;> exact .inr ⟨rfl, rfl⟩

theorem joined_target (s : Sched τ γ) (g : γ) (t u : τ) : (s.joined g t).target u =
    { s.target u with group := if u = t then some g else (s.target u).group } := by
  rw [joined, setGroup_target, setTarget_target]
  split
  · rename_i e
    rw [e]
  · rfl

theorem joined_group (s : Sched τ γ) (g : γ) (t : τ) : (s.joined g t).group g = { s.group g with
    maxLoad := (s.group g).maxLoad + (s.target t).maxLoad
    curLoad := (s.group g).curLoad + (s.target t).curLoad } := by
  rw [joined, setGroup_group, if_pos rfl]

/-- **Adding a target keeps everything.** -/
theorem joined_ok (h : s.Ok) (ht : (s.target t).group = none) (hs : s.heapInsert g t grown = some s1) :
    (s1.joined g t).Ok := by
  obtain ⟨E, ok⟩ := h.groups g
  have htE : t ∉ E := by
    rw [ok.mem_iff, ht]
    simp
  have hr := heapInsert_spec ok h.toBounded htE hs
  have hb := hr.bounded h.toBounded
  have target : ∀ u, (s1.joined g t).target u = { s.target u with
      index := (s1.target u).index, group := if u = t then some g else (s.target u).group } := by
    intro u
    rw [joined_target, hr.target u]
  refine ⟨⟨fun u => ?_, fun u => ?_, fun u => ?_⟩, fun g' => ?_⟩
  · rw [joined_target]
    exact hb.pos u
  · rw [joined_target]
    exact hb.lt u
  · rw [joined_target]
    exact hb.le u
  by_cases hg : g' = g
  · rw [hg]
    have slots1 : (s1.joined g t).slots g = s1.slots g := by simp only [slots, joined_group, joined_target]
    have ratio1 : (s1.joined g t).ratio = s.ratio := by
      funext u
      unfold ratio
      rw [target u]
    have sum : ∀ f : CommSchedTarget γ → Nat, (∀ x n y, f { x with index := n, group := y } = f x) →
        ∑ u ∈ insert t E, f ((s1.joined g t).target u) = ∑ u ∈ E, f (s.target u) + f (s.target t) := by
      intro f hf
      have same : ∀ u, f ((s1.joined g t).target u) = f (s.target u) := fun u => by rw [target, hf]
      rw [Finset.sum_insert htE, Nat.add_comm, same t, Finset.sum_congr rfl fun u _ => same u]
    refine ⟨insert t E, ⟨?_, ?_, fun u => ?_, ?_, ?_, ?_, ?_⟩⟩
    · rw [joined_group, slots1, hr.size]
      exact hr.holds
    · rw [joined_group, slots1, ratio1, hr.size]
      exact hr.ordered
    · rw [Finset.mem_insert, ok.mem_iff, target u]
      simp only
      split
      · rename_i e
        simp only [e, true_or]
      · rename_i e
        simp only [e, false_or]
    · rw [joined_group, sum (fun x => x.maxLoad) fun _ _ _ => rfl, ← ok.maxLoad_eq, ← hr.maxLoad, hr.target t]
    · rw [joined_group, sum (fun x => x.curLoad) fun _ _ _ => rfl, ← ok.curLoad_eq, ← hr.curLoad, hr.target t]
    · rw [joined_group]
      simp only
      rw [hr.size]
      exact hr.room
    · rw [joined_group]
      exact hr.buf_pos
  · obtain ⟨E', ok'⟩ := h.groups g'
    have out : ∀ u ∈ insert t E, (s.target u).group ≠ some g' := by
      intro u hu e
      rcases Finset.mem_insert.1 hu with rfl | hE
      · rw [ht] at e
        cases e
      · rw [(ok.mem_iff u).1 hE] at e
        exact hg (Option.some.inj e).symm
    have ok1 := hr.groupOk_other hg ok' out
    have hgroup : (s1.joined g t).group g' = s1.group g' := by
      rw [joined, setGroup_group, if_neg hg]
      rfl
    refine ⟨E', ok1.frame ⟨_, hgroup⟩ (fun u _ => ?_) (fun u _ => ?_) fun u => ?_⟩ <;> rw [joined_target]
    · exact ⟨rfl, rfl⟩
    · simp only
      split
      · rename_i e
        rw [e, hr.target t, ht]
        simp only [reduceCtorEq, iff_false, Option.some.injEq]
        exact fun e' => hg e'.symm
      · exact Iff.rfl

theorem add_ok (h : s.Ok) (g : γ) (t : τ) (grown : Bool) : (s.add g t grown).1.Ok := by
  rcases add_cases s g t grown with ⟨s1, ht, -, hs, e, -⟩ | ⟨e, -⟩
  · rw [e]
    exact joined_ok h ht hs
  · rw [e]
    exact h

/-- The group's loads once `t` is taken out. -/
def left (s : Sched τ γ) (g : γ) (t : τ) : Sched τ γ :=
  (s.setGroup g { s.group g with
    maxLoad := (s.group g).maxLoad - (s.target t).maxLoad
    curLoad := (s.group g).curLoad - (s.target t).curLoad }).setTarget t { s.target t with group := none }

/-- What `remove` can do: take the target out of the heap, or nothing. -/
theorem remove_cases (s : Sched τ γ) (g : γ) (t : τ) :
    ((s.target t).group = some g ∧ (s.target t).waitCnt = 0 ∧
      (s.remove g t).1 = (s.heapRemove g (s.target t).index).left g t) ∨ (s.remove g t).1 = s := by
  unfold remove
  split
  · rename_i hc
    exact .inl ⟨hc.1, hc.2, rfl⟩
  · split <;> exact .inr rfl

theorem left_target (s : Sched τ γ) (g : γ) (t u : τ) : (s.left g t).target u =
    { s.target u with group := if u = t then none else (s.target u).group } := by
  rw [left, setTarget_target]
  split
  · rename_i e
    rw [e]
  · rfl

theorem left_group (s : Sched τ γ) (g : γ) (t : τ) : (s.left g t).group g = { s.group g with
    maxLoad := (s.group g).maxLoad - (s.target t).maxLoad
    curLoad := (s.group g).curLoad - (s.target t).curLoad } := by
  rw [left, setTarget_group, setGroup_group, if_pos rfl]

/-- **Removing a target keeps everything.** -/
theorem left_ok (h : s.Ok) (ht : (s.target t).group = some g) :
    ((s.heapRemove g (s.target t).index).left g t).Ok := by
  obtain ⟨E, ok⟩ := h.groups g
  have htE : t ∈ E := (ok.mem_iff t).2 ht
  have hr := heapRemove_spec ok h.toBounded htE
  generalize s.heapRemove g (s.target t).index = s1 at hr
  have hb := hr.bounded h.toBounded
  have target : ∀ u, (s1.left g t).target u = { s.target u with
      index := (s1.target u).index, group := if u = t then none else (s.target u).group } := by
    intro u
    rw [left_target, hr.target u]
  refine ⟨⟨fun u => ?_, fun u => ?_, fun u => ?_⟩, fun g' => ?_⟩
  · rw [left_target]
    exact hb.pos u
  · rw [left_target]
    exact hb.lt u
  · rw [left_target]
    exact hb.le u
  by_cases hg : g' = g
  · rw [hg]
    have slots1 : (s1.left g t).slots g = s1.slots g := by simp only [slots, left_group, left_target]
    have ratio1 : (s1.left g t).ratio = s.ratio := by
      funext u
      unfold ratio
      rw [target u]
    have sum : ∀ f : CommSchedTarget γ → Nat, (∀ x n y, f { x with index := n, group := y } = f x) →
        ∑ u ∈ E.erase t, f ((s1.left g t).target u) = ∑ u ∈ E, f (s.target u) - f (s.target t) := by
      intro f hf
      have hsum := Finset.add_sum_erase E (fun u => f (s.target u)) htE
      have same : ∑ u ∈ E.erase t, f ((s1.left g t).target u) = ∑ u ∈ E.erase t, f (s.target u) :=
        Finset.sum_congr rfl fun u _ => by rw [target, hf]
      omega
    refine ⟨E.erase t, ⟨?_, ?_, fun u => ?_, ?_, ?_, ?_, ?_⟩⟩
    · rw [left_group, slots1, hr.size]
      exact hr.holds
    · rw [left_group, slots1, ratio1, hr.size]
      exact hr.ordered
    · rw [Finset.mem_erase, ok.mem_iff, target u]
      simp only
      split
      · rename_i e
        simp [e]
      · rename_i e
        simp [e]
    · rw [left_group, sum (fun x => x.maxLoad) fun _ _ _ => rfl, ← ok.maxLoad_eq, ← hr.maxLoad, hr.target t]
    · rw [left_group, sum (fun x => x.curLoad) fun _ _ _ => rfl, ← ok.curLoad_eq, ← hr.curLoad, hr.target t]
    · rw [left_group]
      simp only
      rw [hr.size]
      exact hr.room
    · rw [left_group]
      exact hr.buf_pos
  · obtain ⟨E', ok'⟩ := h.groups g'
    have out : ∀ u ∈ E.erase t, (s.target u).group ≠ some g' := by
      intro u hu e
      rw [(ok.mem_iff u).1 (Finset.mem_of_mem_erase hu)] at e
      exact hg (Option.some.inj e).symm
    have ok1 := hr.groupOk_other hg ok' out
    have hgroup : (s1.left g t).group g' = s1.group g' := by
      rw [left, setTarget_group, setGroup_group, if_neg hg]
    refine ⟨E', ok1.frame ⟨_, hgroup⟩ (fun u _ => ?_) (fun u _ => ?_) fun u => ?_⟩ <;> rw [left_target]
    · exact ⟨rfl, rfl⟩
    · simp only
      split
      · rename_i e
        rw [e, hr.target t, ht]
        simp only [reduceCtorEq, false_iff, Option.some.injEq]
        exact fun e' => hg e'.symm
      · exact Iff.rfl

theorem remove_ok (h : s.Ok) (g : γ) (t : τ) : (s.remove g t).1.Ok := by
  rcases remove_cases s g t with ⟨ht, -, e⟩ | e
  · rw [e]
    exact left_ok h ht
  · rw [e]
    exact h

end Sched

end Tinywf
