import Tinywf.RouteManager
/-!
# RouteBreaker — no target of a route entry is lost

`RouteOk` is what holds of an entry and its group between two steps: `nleft` is the size of the group's heap, `nbreak`
the length of `breaker_list`, and a target outside the group has a node.  A node goes only once its target has been put
back, and putting back cannot fail: the heap had room for all targets at `init`, and its buffer never shrinks.
-/
namespace Tinywf

open BinHeap Lts

variable {τ γ θ : Type}

/-! ## What a section leaves of a group -/

namespace Sched

theorem setSlots_group_eq [DecidableEq γ] (s : Sched τ γ) (g g' : γ) (h : Slots τ) :
    (s.setSlots g h).group g' = { s.group g' with tgHeap := ((s.setSlots g h).group g').tgHeap } := by
  rw [setSlots_group]
  split
  · rename_i e
    rw [e]
  · rfl

section
variable [DecidableEq τ] [DecidableEq γ]

theorem setLoads_group_eq (s : Sched τ γ) (g g' : γ) (t : τ) (c c' : Nat) : (s.setLoads g t c c').group g' =
    { s.group g' with curLoad := ((s.setLoads g t c c').group g').curLoad } := by
  rw [setLoads, setGroup_group]
  split
  · rename_i e
    rw [e]
  · rfl

theorem takeTarget_group (s : Sched τ γ) (t : τ) (g : γ) : (s.takeTarget t).group g = { s.group g with
    tgHeap := ((s.takeTarget t).group g).tgHeap, curLoad := ((s.takeTarget t).group g).curLoad } := by
  cases hg : (s.target t).group with
  | none =>
    rw [takeTarget_none hg]
    rfl
  | some g' => rw [takeTarget_eq hg, heapify, setSlots_group_eq, setLoads_group_eq]

theorem release_group (s : Sched τ γ) (t : τ) (k : Int) (g : γ) : (s.release t k).1.group g = { s.group g with
    tgHeap := ((s.release t k).1.group g).tgHeap, curLoad := ((s.release t k).1.group g).curLoad } := by
  cases hg : (s.target t).group with
  | none =>
    rw [release_none hg]
    rfl
  | some g' => rw [release_eq hg, heapAdjust, setSlots_group_eq, setLoads_group_eq]

variable {s s' : Sched τ γ} {g : γ} {t : τ} {grown : Bool}

/-- The buffer of a heap with room is enough. -/
theorem heapInsert_room (room : (s.group g).heapSize < (s.group g).heapBufSize) (t : τ) (grown : Bool) :
    ∃ s', s.heapInsert g t grown = some s' := by
  have notFull : ¬ (s.group g).heapSize = (s.group g).heapBufSize := by omega
  unfold heapInsert
  simp only [notFull, decide_false, Bool.false_and, Bool.false_eq_true, if_false]
  exact ⟨_, rfl⟩

theorem heapInsert_bufSize (h : s.heapInsert g t grown = some s') :
    (s.group g).heapBufSize ≤ (s'.group g).heapBufSize := by
  unfold heapInsert at h
  simp only at h
  split at h
  · cases h
  · cases h
    rw [setGroup_group, if_pos rfl, heapAdjust, setSlots_group_eq, setSlots_group_eq]
    split
    · rw [setGroup_group, if_pos rfl]
      show _ ≤ 2 * _
      omega
    · exact Nat.le_refl _

theorem heapRemove_bufSize (s : Sched τ γ) (g : γ) (i : Nat) :
    ((s.heapRemove g i).group g).heapBufSize = (s.group g).heapBufSize := by
  unfold heapRemove
  simp only
  split
  · rw [heapify, setSlots_group_eq, heapAdjust, setSlots_group_eq, setSlots_group_eq, setGroup_group, if_pos rfl]
  · rw [setGroup_group, if_pos rfl]

end

/-- As many slots as members. -/
theorem GroupOk.card_eq [DecidableEq τ] {s : Sched τ γ} {g : γ} {E : Finset τ} (ok : s.GroupOk g E) :
    E.card = (s.group g).heapSize := by
  rw [← ok.holds.elems_eq, elems, Finset.card_image_of_injOn, Finset.card_range]
  intro i hi j hj e
  exact ok.holds.slot_inj (Finset.mem_range.1 hi) (Finset.mem_range.1 hj) e

end Sched

variable [DecidableEq τ]

/-! ## The entry and its group -/

/-- What holds of an entry with the group `g`. -/
structure RouteOk (s : Sched τ γ) (e : RouteResultEntry τ γ) (g : γ) : Prop where
  sched : s.Ok
  group : e.group = some g
  nodup : e.targets.Nodup
  only : ∀ t, (s.target t).group = some g → t ∈ e.targets
  home : ∀ t ∈ e.targets, (s.target t).group = none ∨ (s.target t).group = some g
  idle : ∀ t ∈ e.targets, (s.target t).waitCnt = 0
  nleft : e.nleft = (s.group g).heapSize
  nbreak : e.nbreak = e.breakerList.length
  nodes : ∀ node ∈ e.breakerList, node.target ∈ e.targets
  kept : ∀ t ∈ e.targets, (s.target t).group = some g ∨ ∃ node ∈ e.breakerList, node.target = t
  room : e.targets.length ≤ (s.group g).heapBufSize

/-- `s'` has the members of `g` that `s` has, as far as the entry can tell. -/
structure SameGroup (s s' : Sched τ γ) (e : RouteResultEntry τ γ) (g : γ) : Prop where
  group : ∀ t ∈ e.targets, (s'.target t).group = (s.target t).group
  others : ∀ t ∉ e.targets, (s.target t).group ≠ some g → (s'.target t).group ≠ some g
  waitCnt : ∀ t ∈ e.targets, (s'.target t).waitCnt = (s.target t).waitCnt
  size : (s'.group g).heapSize = (s.group g).heapSize
  buf : (s'.group g).heapBufSize = (s.group g).heapBufSize

variable {s s' s1 : Sched τ γ} {e : RouteResultEntry τ γ} {g : γ} {t : τ}

theorem RouteOk.same (h : RouteOk s e g) (hs : s'.Ok) (same : SameGroup s s' e g) : RouteOk s' e g := by
  refine ⟨hs, h.group, h.nodup, fun t ht => ?_, fun t ht => ?_, fun t ht => ?_, ?_, h.nbreak, h.nodes,
    fun t ht => ?_, ?_⟩
  · by_cases own : t ∈ e.targets
    · exact own
    · exact absurd ht (same.others t own fun e' => own (h.only t e'))
  · rw [same.group t ht]
    exact h.home t ht
  · rw [same.waitCnt t ht]
    exact h.idle t ht
  · rw [same.size]
    exact h.nleft
  · rw [same.group t ht]
    exact h.kept t ht
  · rw [same.buf]
    exact h.room

/-- **The heap has as many targets as the entry has targets in the group.** -/
theorem RouteOk.size_eq [DecidableEq γ] (h : RouteOk s e g) :
    (s.group g).heapSize = (e.targets.filter fun t => (s.target t).group = some g).length := by
  obtain ⟨E, ok⟩ := h.sched.groups g
  have hE : E = (e.targets.filter fun t => (s.target t).group = some g).toFinset := by
    ext t
    rw [ok.mem_iff, List.mem_toFinset, List.mem_filter, decide_eq_true_iff]
    constructor
    · intro ht
      exact ⟨h.only t ht, ht⟩
    · exact And.right
  rw [← ok.card_eq, hE, List.toFinset_card_of_nodup (h.nodup.filter _)]

/-- A target outside leaves a slot of the buffer free. -/
theorem RouteOk.size_lt [DecidableEq γ] (h : RouteOk s e g) (own : t ∈ e.targets) (ht : (s.target t).group = none) :
    (s.group g).heapSize < (s.group g).heapBufSize := by
  have fewer : (e.targets.filter fun t => (s.target t).group = some g).length < e.targets.length := by
    apply List.length_filter_lt_length_iff_exists.2
    refine ⟨t, own, ?_⟩
    rw [ht]
    simp
  have := h.room
  rw [h.size_eq] at *
  omega

/-! ## In and out of the group -/

/-- What the entry sees of a target that joins. -/
structure Joins (s s' : Sched τ γ) (g : γ) (t : τ) : Prop where
  ok : s'.Ok
  group : ∀ u, (s'.target u).group = if u = t then some g else (s.target u).group
  waitCnt : ∀ u, (s'.target u).waitCnt = (s.target u).waitCnt
  size : (s'.group g).heapSize = (s.group g).heapSize + 1
  buf : (s.group g).heapBufSize ≤ (s'.group g).heapBufSize
  room : (s'.group g).heapSize ≤ (s'.group g).heapBufSize

/-- What the entry sees of a target that leaves. -/
structure Leaves (s s' : Sched τ γ) (g : γ) (t : τ) : Prop where
  ok : s'.Ok
  group : ∀ u, (s'.target u).group = if u = t then none else (s.target u).group
  waitCnt : ∀ u, (s'.target u).waitCnt = (s.target u).waitCnt
  size : (s'.group g).heapSize + 1 = (s.group g).heapSize
  buf : (s'.group g).heapBufSize = (s.group g).heapBufSize

theorem RouteOk.joins (h : RouteOk s e g) (own : t ∈ e.targets) (hj : Joins s s' g t) :
    RouteOk s' { e with nleft := e.nleft + 1 } g := by
  refine ⟨hj.ok, h.group, h.nodup, fun u hu => ?_, fun u hu => ?_, fun u hu => ?_, ?_, h.nbreak, h.nodes,
    fun u hu => ?_, le_trans h.room hj.buf⟩
  · rw [hj.group] at hu
    split at hu
    · rename_i e'
      rw [e']
      exact own
    · exact h.only u hu
  · rw [hj.group]
    split
    · exact .inr rfl
    · exact h.home u hu
  · rw [hj.waitCnt]
    exact h.idle u hu
  · show e.nleft + 1 = _
    rw [hj.size, h.nleft]
    rfl
  · rw [hj.group]
    split
    · exact .inl rfl
    · exact h.kept u hu

/-- **A target leaves the group and a node comes to the list.** -/
theorem RouteOk.leaves (h : RouteOk s e g) (own : t ∈ e.targets) (hl : Leaves s s' g t) (timeout : Int) :
    RouteOk s' { e with
      breakerList := e.breakerList ++ [{ target := t, timeout := timeout }]
      nbreak := e.nbreak + 1
      nleft := e.nleft - 1 } g := by
  refine ⟨hl.ok, h.group, h.nodup, fun u hu => ?_, fun u hu => ?_, fun u hu => ?_, ?_, ?_, fun node hn => ?_,
    fun u hu => ?_, ?_⟩
  · rw [hl.group] at hu
    split at hu
    · cases hu
    · exact h.only u hu
  · rw [hl.group]
    split
    · exact .inl rfl
    · exact h.home u hu
  · rw [hl.waitCnt]
    exact h.idle u hu
  · have := hl.size
    show e.nleft - 1 = _
    rw [h.nleft]
    omega
  · show e.nbreak + 1 = _
    rw [h.nbreak, List.length_append]
    rfl
  · rcases List.mem_append.1 hn with hn | hn
    · exact h.nodes node hn
    · rw [List.mem_singleton.1 hn]
      exact own
  · by_cases hut : u = t
    · exact .inr ⟨_, List.mem_append_right _ List.mem_cons_self, hut.symm⟩
    · rw [hl.group, if_neg hut]
      rcases h.kept u hu with hu | ⟨node, hn, e'⟩
      · exact .inl hu
      · exact .inr ⟨node, List.mem_append_left _ hn, e'⟩
  · rw [hl.buf]
    exact h.room

/-- **A node goes once its target is in the group.** -/
theorem RouteOk.drops (h : RouteOk s e g) {pos : Nat} (hpos : pos < e.breakerList.length)
    (back : (s.target e.breakerList[pos].target).group = some g) :
    RouteOk s { e with breakerList := e.breakerList.eraseIdx pos, nbreak := e.nbreak - 1 } g := by
  refine { h with nbreak := ?_, nodes := fun node hn => ?_, kept := fun u hu => ?_ }
  · show e.nbreak - 1 = _
    rw [h.nbreak, List.length_eraseIdx_of_lt hpos]
    omega
  · exact h.nodes node (List.mem_of_mem_eraseIdx hn)
  · rcases h.kept u hu with hu | ⟨node, hn, e'⟩
    · exact .inl hu
    · obtain ⟨i, hi, hnode⟩ := List.getElem_of_mem hn
      by_cases hip : i = pos
      · subst hip
        rw [← e', ← hnode]
        exact .inl back
      · exact .inr ⟨node, List.mem_eraseIdx_iff_getElem.2 ⟨i, hi, hip, hnode⟩, e'⟩

variable [DecidableEq γ]

/-- Adding, where the heap takes the target. -/
theorem Sched.add_joins {grown : Bool} (ht : (s.target t).group = none) (idle : (s.target t).waitCnt = 0)
    (hs : s.heapInsert g t grown = some s1) : (s.add g t grown).1 = s1.joined g t ∧ (s.add g t grown).2.2 = .ok () := by
  unfold Sched.add
  rw [if_pos ⟨ht, idle⟩, hs]
  simp only [Sched.joined, Sched.setTarget_target, Sched.setTarget_group, if_true]
  exact ⟨trivial, trivial⟩

/-- **A target of the entry that is outside the group can be added.** -/
theorem RouteOk.add_cases (h : RouteOk s e g) (own : t ∈ e.targets) (grown : Bool) :
    (∃ s1, (s.target t).group = none ∧ s.heapInsert g t grown = some s1 ∧ (s.add g t grown).1 = s1.joined g t ∧
      (s.add g t grown).2.2 = .ok ()) ∨
    ((s.target t).group = some g ∧ (s.add g t grown).1 = s ∧ (s.add g t grown).2.2 = .error .EEXIST) := by
  rcases h.home t own with ht | ht
  · obtain ⟨s1, hs1⟩ := Sched.heapInsert_room (h.size_lt own ht) t grown
    exact .inl ⟨s1, ht, hs1, Sched.add_joins ht (h.idle t own) hs1⟩
  · refine .inr ⟨ht, ?_⟩
    unfold Sched.add
    rw [if_neg (by simp [ht]), if_pos ht]
    exact ⟨rfl, rfl⟩

theorem joined_joins {grown : Bool} (h : s.Ok) (ht : (s.target t).group = none)
    (hs : s.heapInsert g t grown = some s1) : Joins s (s1.joined g t) g t := by
  have ok' := Sched.joined_ok h ht hs
  obtain ⟨E, ok⟩ := h.groups g
  have hr := Sched.heapInsert_spec ok h.toBounded (by rw [ok.mem_iff, ht]; simp) hs
  have buf := Sched.heapInsert_bufSize hs
  have size := hr.size
  refine ⟨ok', fun u => ?_, fun u => ?_, ?_, ?_, ?_⟩
  · rw [Sched.joined_target, hr.target u]
  · rw [Sched.joined_target, hr.target u]
  · rw [Sched.joined_group]
    exact size
  · rw [Sched.joined_group]
    exact buf
  · obtain ⟨E', ok''⟩ := ok'.groups g
    exact ok''.size_le

theorem left_leaves (h : s.Ok) (ht : (s.target t).group = some g) :
    Leaves s ((s.heapRemove g (s.target t).index).left g t) g t := by
  obtain ⟨E, ok⟩ := h.groups g
  have htE : t ∈ E := (ok.mem_iff t).2 ht
  have hr := Sched.heapRemove_spec ok h.toBounded htE
  have hlt := ok.holds.pos_lt htE
  refine ⟨Sched.left_ok h ht, fun u => ?_, fun u => ?_, ?_, ?_⟩
  · rw [Sched.left_target, hr.target u]
  · rw [Sched.left_target, hr.target u]
  · rw [Sched.left_group]
    show ((s.heapRemove g (s.target t).index).group g).heapSize + 1 = _
    rw [hr.size]
    omega
  · rw [Sched.left_group]
    exact Sched.heapRemove_bufSize s g _

/-! ## The calls -/

variable {grown : Bool}

/-- What a call leaves as it was. -/
structure SameEntry (e e' : RouteResultEntry τ γ) : Prop where
  targets : e'.targets = e.targets
  list : e'.breakerList = e.breakerList
  nbreak : e'.nbreak = e.nbreak
  le : e.nleft ≤ e'.nleft

theorem putBack_sched (s : Sched τ γ) (e : RouteResultEntry τ γ) (g : γ) (t : τ) (grown : Bool) :
    (e.putBack s g t grown).1 = (s.add g t grown).1 ∧ (e.putBack s g t grown).2.1 = (s.add g t grown).2.1 := by
  unfold RouteResultEntry.putBack
  split
  · rename_i hr
    rw [hr]
    exact ⟨rfl, rfl⟩
  · rename_i hr
    rw [hr]
    exact ⟨rfl, rfl⟩

theorem putBack_entry (s : Sched τ γ) (e : RouteResultEntry τ γ) (g : γ) (t : τ) (grown : Bool) :
    (e.putBack s g t grown).2.2 = match (s.add g t grown).2.2 with
      | .ok _ => { e with nleft := e.nleft + 1 }
      | .error _ => e := by
  unfold RouteResultEntry.putBack
  split
  · rename_i hr
    rw [hr]
  · rename_i hr
    rw [hr]

/-- **`add` brings the target back, and the entry counts it.** -/
theorem putBack_spec (h : RouteOk s e g) (own : t ∈ e.targets) (grown : Bool) :
    RouteOk (e.putBack s g t grown).1 (e.putBack s g t grown).2.2 g ∧
      ((e.putBack s g t grown).1.target t).group = some g ∧ SameEntry e (e.putBack s g t grown).2.2 := by
  rw [(putBack_sched s e g t grown).1, putBack_entry]
  rcases h.add_cases own grown with ⟨s1, ht, hs1, e1, e2⟩ | ⟨ht, e1, e2⟩
  · have hj := joined_joins h.sched ht hs1
    rw [e1, e2]
    refine ⟨h.joins own hj, ?_, rfl, rfl, rfl, ?_⟩
    · rw [hj.group, if_pos rfl]
    · show e.nleft ≤ e.nleft + 1
      omega
  · rw [e1, e2]
    exact ⟨h, ht, rfl, rfl, rfl, le_refl _⟩

/-- What a call of the entry keeps of it. -/
structure Keeps (s s' : Sched τ γ) (e e' : RouteResultEntry τ γ) (g : γ) : Prop where
  ok : RouteOk s' e' g
  targets : e'.targets = e.targets
  one_le : 1 ≤ e.nleft → 1 ≤ e'.nleft
  curLoad : ∀ u, (s'.target u).curLoad = (s.target u).curLoad

omit [DecidableEq γ] in
theorem RouteOk.keeps (h : RouteOk s e g) : Keeps s s e e g := ⟨h, rfl, id, fun _ => rfl⟩

theorem notifyAvailable_keeps (h : RouteOk s e g) (own : t ∈ e.targets) (seen : Int) :
    Keeps s (e.notifyAvailable s t seen grown).1 e (e.notifyAvailable s t seen grown).2.2 g := by
  unfold RouteResultEntry.notifyAvailable
  split
  · exact h.keeps
  rename_i g' hg
  rw [h.group] at hg
  cases hg
  split
  · exact h.keeps
  · obtain ⟨ok, -, same⟩ := putBack_spec h own grown
    refine ⟨ok, same.targets, fun h1 => le_trans h1 same.le, fun u => ?_⟩
    rw [(putBack_sched s e g t grown).1, joined_curLoad h.sched]

theorem checkNode_keeps (h : RouteOk s e g) {pos : Nat} (hpos : pos < e.breakerList.length) (curTime : Int) :
    Keeps s (e.checkNode s curTime pos grown).1 e (e.checkNode s curTime pos grown).2.2.1 g := by
  unfold RouteResultEntry.checkNode
  split
  · rename_i g' node hg hnode
    rw [h.group] at hg
    cases hg
    rw [List.getElem?_eq_getElem hpos] at hnode
    cases hnode
    split
    · obtain ⟨ok, back, same⟩ := putBack_spec h (h.nodes _ (List.getElem_mem hpos)) grown
      refine ⟨?_, same.targets, fun h1 => le_trans h1 same.le, fun u => ?_⟩
      · have drops := ok.drops (by rw [same.list]; exact hpos) (by simp only [same.list]; exact back)
        rw [same.list, same.nbreak] at drops
        exact drops
      · simp only
        rw [(putBack_sched s e g _ grown).1, joined_curLoad h.sched]
    · exact h.keeps
  · exact h.keeps

theorem notifyUnavailable_keeps (h : RouteOk s e g) (own : t ∈ e.targets) (now : Int) :
    Keeps s (e.notifyUnavailable s t now).1 e (e.notifyUnavailable s t now).2 g := by
  unfold RouteResultEntry.notifyUnavailable
  split
  · exact h.keeps
  rename_i g' hg
  rw [h.group] at hg
  cases hg
  split
  · exact h.keeps
  split
  · exact h.keeps
  rename_i more
  by_cases ht : (s.target t).group = some g
  · have hl := left_leaves h.sched ht
    have out : s.remove g t = ((s.heapRemove g (s.target t).index).left g t, .ok ()) := by
      unfold Sched.remove
      rw [if_pos ⟨ht, h.idle t own⟩]
      rfl
    rw [out]
    refine ⟨h.leaves own hl _, rfl, fun _ => ?_, fun u => ?_⟩
    · show 1 ≤ e.nleft - 1
      omega
    · rw [← remove_curLoad h.sched g t u, out]
  · have stays : s.remove g t = (s, .error .ENOENT) := by
      unfold Sched.remove
      rw [if_neg (fun hc => ht hc.1), if_pos ht]
    rw [stays]
    exact h.keeps

/-! ## The entry is made -/

/-- A new target joins the entry. -/
theorem RouteOk.grows (h : RouteOk s e g) (full : ∀ u ∈ e.targets, (s.target u).group = some g) (out : t ∉ e.targets)
    (idle : (s.target t).waitCnt = 0) (hj : Joins s s' g t) :
    RouteOk s' { e with targets := e.targets ++ [t], nleft := e.nleft + 1 } g := by
  have joined : ∀ u ∈ e.targets ++ [t], (s'.target u).group = some g := by
    intro u hu
    rw [hj.group]
    rcases List.mem_append.1 hu with hu | hu
    · rw [if_neg (ne_of_mem_of_not_mem hu out)]
      exact full u hu
    · rw [if_pos (List.mem_singleton.1 hu)]
  have size : (s.group g).heapSize = e.targets.length := by
    rw [h.size_eq, List.filter_eq_self.2 fun u hu => decide_eq_true (full u hu)]
  refine ⟨hj.ok, h.group, ?_, fun u hu => ?_, fun u hu => .inr (joined u hu), fun u hu => ?_, ?_, h.nbreak,
    fun node hn => List.mem_append_left _ (h.nodes node hn), fun u hu => .inl (joined u hu), ?_⟩
  · exact List.nodup_append.2 ⟨h.nodup, List.nodup_singleton t, fun a ha b hb =>
      ne_of_mem_of_not_mem ha (List.mem_singleton.1 hb ▸ out)⟩
  · rw [hj.group] at hu
    split at hu
    · rename_i e'
      exact List.mem_append_right _ (List.mem_singleton.2 e')
    · exact List.mem_append_left _ (h.only u hu)
  · rw [hj.waitCnt]
    rcases List.mem_append.1 hu with hu | hu
    · exact h.idle u hu
    · rw [List.mem_singleton.1 hu]
      exact idle
  · show e.nleft + 1 = _
    rw [hj.size, h.nleft]
    rfl
  · show (e.targets ++ [t]).length ≤ _
    rw [List.length_append, ← size]
    have := hj.room
    rw [hj.size] at this
    exact this

/-- What `add_group_targets` has made of an entry once it is through. -/
structure Grown (s s' : Sched τ γ) (e e' : RouteResultEntry τ γ) (g : γ) (addrs : List (Option τ)) : Prop where
  ok : RouteOk s' e' g
  nleft : e'.nleft = e.nleft + addrs.length
  own : ∀ t ∈ e'.targets, t ∈ e.targets ∨ t ∈ addrs.filterMap id
  curLoad : ∀ u, (s'.target u).curLoad = (s.target u).curLoad

theorem addGroupTargets_spec (g : γ) (grown : τ → Bool) : ∀ (addrs : List (Option τ)) (s s' : Sched τ γ)
    (e e' : RouteResultEntry τ γ), RouteOk s e g → (∀ t ∈ e.targets, (s.target t).group = some g) →
    (∀ t ∈ addrs.filterMap id, t ∉ e.targets ∧ (s.target t).group = none ∧ (s.target t).waitCnt = 0) →
    (addrs.filterMap id).Nodup → RouteResultEntry.addGroupTargets g grown s e addrs = (s', some e') →
    Grown s s' e e' g addrs
  | [], s, s', e, e', h, _, _, _, run => by
    cases run
    exact ⟨h, by simp, fun t ht => .inl ht, fun _ => rfl⟩
  | none :: _, s, s', e, e', _, _, _, _, run => by
    cases run
  | some t :: addrs, s, s', e, e', h, full, made, nodup, run => by
    have cons : (some t :: addrs).filterMap id = t :: addrs.filterMap id := rfl
    rw [cons] at made nodup
    obtain ⟨out, ht, idle⟩ := made t List.mem_cons_self
    unfold RouteResultEntry.addGroupTargets at run
    cases hs : s.heapInsert g t (grown t) with
    | none =>
      have fails : (s.add g t (grown t)).2.2 = .error .ENOMEM := by
        unfold Sched.add
        rw [if_pos ⟨ht, idle⟩, hs]
      split at run
      · rename_i hr
        rw [hr] at fails
        cases fails
      · cases run
    | some s1 =>
      have hj := joined_joins h.sched ht hs
      obtain ⟨e1, e2⟩ := Sched.add_joins ht idle hs
      split at run
      · rename_i s2 _ _ hr
        have e3 : s2 = s1.joined g t := by rw [← e1, hr]
        rw [e3] at run
        have grows := h.grows full out idle hj
        have rest := addGroupTargets_spec g grown addrs _ s' _ e' grows (fun u hu => ?_) (fun u hu => ?_)
          (List.nodup_cons.1 nodup).2 run
        · refine ⟨rest.ok, ?_, fun u hu => ?_, fun u => ?_⟩
          · rw [rest.nleft, List.length_cons]
            push_cast
            omega
          · rw [cons]
            rcases rest.own u hu with hu | hu
            · rcases List.mem_append.1 hu with hu | hu
              · exact .inl hu
              · exact .inr (List.mem_cons.2 (.inl (List.mem_singleton.1 hu)))
            · exact .inr (List.mem_cons_of_mem _ hu)
          · rw [rest.curLoad, ← e1, joined_curLoad h.sched]
        · rw [hj.group]
          rcases List.mem_append.1 hu with hu | hu
          · rw [if_neg (ne_of_mem_of_not_mem hu out)]
            exact full u hu
          · rw [if_pos (List.mem_singleton.1 hu)]
        · obtain ⟨out', ht', idle'⟩ := made u (List.mem_cons_of_mem _ hu)
          have ne : u ≠ t := ne_of_mem_of_not_mem hu (List.nodup_cons.1 nodup).1
          refine ⟨fun hu => ?_, ?_, ?_⟩
          · rcases List.mem_append.1 hu with hu | hu
            · exact out' hu
            · exact ne (List.mem_singleton.1 hu)
          · rw [hj.group, if_neg ne]
            exact ht'
          · rw [hj.waitCnt]
            exact idle'
      · rename_i hr
        rw [hr] at e2
        cases e2

/-! ## The scheduler's steps -/

namespace SameGroup

omit [DecidableEq τ] [DecidableEq γ] in
theorem refl (s : Sched τ γ) (e : RouteResultEntry τ γ) (g : γ) : SameGroup s s e g :=
  ⟨fun _ _ => rfl, fun _ _ => id, fun _ _ => rfl, rfl, rfl⟩

omit [DecidableEq τ] [DecidableEq γ] in
theorem trans {s'' : Sched τ γ} (h : SameGroup s s' e g) (h' : SameGroup s' s'' e g) : SameGroup s s'' e g where
  group t ht := (h'.group t ht).trans (h.group t ht)
  others t ht out := h'.others t ht (h.others t ht out)
  waitCnt t ht := (h'.waitCnt t ht).trans (h.waitCnt t ht)
  size := h'.size.trans h.size
  buf := h'.buf.trans h.buf

theorem setWaitCnt (s : Sched τ γ) (g : γ) {o : CommSchedObject τ γ} (apart : ∀ t ∈ e.targets, o ≠ .target t) (n : Nat) :
    SameGroup s (s.setWaitCnt n o) e g := by
  refine ⟨fun t _ => ?_, fun t _ out => ?_, fun t ht => ?_, ?_, ?_⟩
  · rw [Sched.setWaitCnt_target]
  · rw [Sched.setWaitCnt_target]
    exact out
  · cases o with
    | target u =>
      have hne : t ≠ u := fun e' => apart t ht (by rw [e'])
      rw [Sched.setWaitCnt, Sched.setTarget_target, if_neg hne]
    | group g' => rfl
  · rw [Sched.setWaitCnt_group]
  · rw [Sched.setWaitCnt_group]

theorem takeTarget (s : Sched τ γ) (e : RouteResultEntry τ γ) (g : γ) (t : τ) : SameGroup s (s.takeTarget t) e g := by
  refine ⟨fun u _ => ?_, fun u _ out => ?_, fun u _ => ?_, ?_, ?_⟩
  · rw [Sched.takeTarget_target]
  · rw [Sched.takeTarget_target]
    exact out
  · rw [Sched.takeTarget_target]
  · rw [Sched.takeTarget_group]
  · rw [Sched.takeTarget_group]

theorem release (s : Sched τ γ) (e : RouteResultEntry τ γ) (g : γ) (t : τ) (k : Int) :
    SameGroup s (s.release t k).1 e g := by
  refine ⟨fun u _ => ?_, fun u _ out => ?_, fun u _ => ?_, ?_, ?_⟩
  · rw [Sched.release_target]
  · rw [Sched.release_target]
    exact out
  · rw [Sched.release_target]
  · rw [Sched.release_group]
  · rw [Sched.release_group]

theorem add {g' : γ} (h : s.Ok) (hg : g' ≠ g) (ht : t ∉ e.targets) : SameGroup s (s.add g' t grown).1 e g := by
  rcases Sched.add_cases s g' t grown with ⟨s1, hn, -, hs, e', -⟩ | ⟨e', -⟩ <;> rw [e']
  · obtain ⟨E, ok⟩ := h.groups g'
    have hr := Sched.heapInsert_spec ok h.toBounded (by rw [ok.mem_iff, hn]; simp) hs
    have hj := joined_joins h hn hs
    have group : (s1.joined g' t).group g = s.group g := by
      rw [Sched.joined, Sched.setGroup_group, if_neg hg.symm]
      exact hr.others g hg.symm
    refine ⟨fun u hu => ?_, fun u _ out => ?_, fun u _ => hj.waitCnt u, by rw [group], by rw [group]⟩
    · rw [hj.group, if_neg (ne_of_mem_of_not_mem hu ht)]
    · rw [hj.group]
      split
      · exact fun e' => hg (Option.some.inj e')
      · exact out
  · exact refl s e g

theorem remove {g' : γ} (h : s.Ok) (hg : g' ≠ g) (ht : t ∉ e.targets) : SameGroup s (s.remove g' t).1 e g := by
  rcases Sched.remove_cases s g' t with ⟨hn, -, e'⟩ | e' <;> rw [e']
  · obtain ⟨E, ok⟩ := h.groups g'
    have hr := Sched.heapRemove_spec ok h.toBounded ((ok.mem_iff t).2 hn)
    have hl := left_leaves h hn
    have group : ((s.heapRemove g' (s.target t).index).left g' t).group g = s.group g := by
      rw [Sched.left, Sched.setTarget_group, Sched.setGroup_group, if_neg hg.symm]
      exact hr.others g hg.symm
    refine ⟨fun u hu => ?_, fun u _ out => ?_, fun u _ => hl.waitCnt u, by rw [group], by rw [group]⟩
    · rw [hl.group, if_neg (ne_of_mem_of_not_mem hu ht)]
    · rw [hl.group]
      split
      · simp
      · exact out
  · exact refl s e g

theorem acquire (h : s.Ok) (g : γ) {o : CommSchedObject τ γ} (apart : ∀ t ∈ e.targets, o ≠ .target t) (w : Int) :
    SameGroup s (s.acquire o w).1 e g := by
  rcases Sched.acquire_cases h o w with ⟨-, -, e'⟩ | ⟨-, -, e'⟩ | ⟨t, -, e'⟩ <;> rw [e']
  · exact setWaitCnt s g apart _
  · exact refl s e g
  · exact takeTarget s e g t

theorem resume (h : s.Ok) (g : γ) {o : CommSchedObject τ γ} (apart : ∀ t ∈ e.targets, o ≠ .target t)
    (ret : Option Errno) : SameGroup s (s.resume o ret).1 e g := by
  have first := setWaitCnt s g apart (s.waitCnt o - 1)
  rcases Sched.resume_cases h o ret with ⟨-, -, e'⟩ | ⟨-, r, -, e'⟩ | ⟨t, -, e'⟩ <;> rw [e']
  · exact first.trans (setWaitCnt _ g apart _)
  · exact first
  · exact first.trans (takeTarget _ e g t)

end SameGroup

variable [DecidableEq θ]

omit [DecidableEq τ] [DecidableEq γ] in
theorem Signalled.object {o : Option (CommSchedObject τ γ)} {f f' : θ → Thread τ γ} (h : Signalled o f f') (a : θ) :
    (f' a).object = (f a).object := by
  cases h with
  | none => rfl
  | nobody => rfl
  | wakes b timed waits =>
    rw [Function.update_apply]
    split
    · rename_i e
      rw [e, waits]
      rfl
    · rfl

omit [DecidableEq γ] in
theorem settle_sched (s : Sys τ γ θ) (a : θ) (o : CommSchedObject τ γ) (timed : Bool) (r : Sched τ γ × Acquired τ) :
    (s.settle a o timed r).sched = r.1 := by
  unfold Sys.settle
  split <;> rfl

omit [DecidableEq γ] in
theorem settle_object (s : Sys τ γ θ) (a b : θ) (o : CommSchedObject τ γ) (timed : Bool) (r : Sched τ γ × Acquired τ) :
    ((s.settle a o timed r).thread b).object = (s.thread b).object ∨
      ((s.settle a o timed r).thread b).object = none ∨ ((s.settle a o timed r).thread b).object = some o := by
  unfold Sys.settle
  split <;> simp only [Function.update_apply] <;> split
  · exact .inr (.inl rfl)
  · exact .inl rfl
  · exact .inr (.inr rfl)
  · exact .inl rfl
  · exact .inr (.inl rfl)
  · exact .inl rfl

/-- What holds between two steps. -/
structure RouteSys.Ok (s : RouteSys τ γ θ) (g : γ) : Prop where
  route : RouteOk s.sys.sched s.entry g
  held : ∀ t, s.sys.held t = (s.sys.sched.target t).curLoad
  one_le : 1 ≤ s.entry.nleft
  apart : ∀ a, ∀ t ∈ s.entry.targets, (s.sys.thread a).object ≠ some (.target t)

section
variable {s s' : RouteSys τ γ θ}

omit [DecidableEq γ] [DecidableEq θ] in
theorem RouteSys.Ok.sys (h : s.Ok g) : s.sys.Ok := ⟨h.route.sched, h.held⟩

/-- The other sections leave the entry's group as it is. -/
theorem RouteSys.Ok.same {x : Action τ γ θ} {sys' : Sys τ γ θ} (h : s.Ok g) (apart : x.Apart s.entry)
    (step : Step s.sys x sys') : SameGroup s.sys.sched sys'.sched s.entry g ∧
      ∀ a, ∀ t ∈ s.entry.targets, (sys'.thread a).object ≠ some (.target t) := by
  have sched := h.route.sched
  have notMine : ∀ g', s.entry.group ≠ some g' → g' ≠ g := fun g' hg e => hg (by rw [h.route.group, e])
  cases step with
  | acquire a o w runs =>
    refine ⟨?_, fun b t ht => ?_⟩
    · rw [settle_sched]
      exact SameGroup.acquire sched g apart w
    · rcases settle_object s.sys a b o (0 < w) (s.sys.sched.acquire o w) with e | e | e <;> rw [e]
      · exact h.apart b t ht
      · simp
      · exact fun e => apart t ht (Option.some.inj e)
  | resume a o timed ret back =>
    have away : ∀ t ∈ s.entry.targets, o ≠ .target t := by
      intro t ht e
      apply h.apart a t ht
      rw [back, e]
      rfl
    refine ⟨?_, fun b t ht => ?_⟩
    · rw [settle_sched]
      exact SameGroup.resume sched g away ret
    · rcases settle_object s.sys a b o timed (s.sys.sched.resume o ret) with e | e | e <;> rw [e]
      · exact h.apart b t ht
      · simp
      · exact fun e => away t ht (Option.some.inj e)
  | timeout a o waits =>
    refine ⟨SameGroup.refl _ _ g, fun b t ht => ?_⟩
    simp only [Function.update_apply]
    split
    · have := h.apart a t ht
      rw [waits] at this
      exact this
    · exact h.apart b t ht
  | release a t k f runs held signal =>
    refine ⟨SameGroup.release _ _ g t k, fun b t ht => ?_⟩
    rw [signal.object]
    exact h.apart b t ht
  | add a g' t grown f runs signal =>
    refine ⟨SameGroup.add sched (notMine g' apart.1) apart.2, fun b t ht => ?_⟩
    rw [signal.object]
    exact h.apart b t ht
  | remove a g' t runs => exact ⟨SameGroup.remove sched (notMine g' apart.1) apart.2, h.apart⟩

omit [DecidableEq γ] [DecidableEq θ] in
/-- What a call of the entry keeps. -/
theorem RouteSys.Ok.call {sched' : Sched τ γ} {entry' : RouteResultEntry τ γ} {f : θ → Thread τ γ} (h : s.Ok g)
    (keeps : Keeps s.sys.sched sched' s.entry entry' g) (hf : ∀ a, (f a).object = (s.sys.thread a).object)
    (checking : Option (Int × Nat)) :
    RouteSys.Ok { sys := { s.sys with sched := sched', thread := f }, entry := entry', checking := checking } g := by
  refine ⟨keeps.ok, fun t => ?_, keeps.one_le h.one_le, fun a t ht => ?_⟩
  · show s.sys.held t = _
    rw [keeps.curLoad, h.held]
  · show (f a).object ≠ _
    rw [hf]
    apply h.apart
    rw [← keeps.targets]
    exact ht

/-- **Every step keeps the books.** -/
theorem RouteStep.ok {x : RouteAction τ γ θ} (h : s.Ok g) (step : RouteStep s x s') : s'.Ok g := by
  cases step with
  | scheduler x sys' apart step =>
    obtain ⟨same, away⟩ := h.same apart step
    have ok' := step.ok h.sys
    exact ⟨h.route.same ok'.sched same, ok'.held, h.one_le, away⟩
  | notifyUnavailable target now free own =>
    exact h.call (notifyUnavailable_keeps h.route own now) (fun _ => rfl) _
  | notifyAvailable target seen grown f free own signal =>
    exact h.call (notifyAvailable_keeps h.route own seen) signal.object _
  | checkBreaker seen curTime free goes => exact ⟨h.route, h.held, h.one_le, h.apart⟩
  | checkNode curTime pos grown f has more signal =>
    exact h.call (checkNode_keeps h.route more curTime) signal.object _
  | unlock curTime pos has done => exact ⟨h.route, h.held, h.one_le, h.apart⟩

end

/-! ## The books -/

/-- The targets of the entry that are in its group. -/
def RouteSys.members (s : RouteSys τ γ θ) : List τ :=
  s.entry.targets.filter fun t => (s.sys.sched.target t).group = s.entry.group

section
variable {s₀ s : RouteSys τ γ θ}

/-- A fresh group has no members. -/
theorem Fresh.routeOk {before : Sys τ γ θ} {made : List τ} (h : Fresh before g made) :
    RouteOk before.sched { RouteResultEntry.new with group := some g } g := by
  obtain ⟨x₀, init, run⟩ := h.reached
  have ok := (reaches_ok init run).sched
  obtain ⟨heap, hg⟩ := h.group
  have empty : (before.sched.group g).heapSize = 0 := by
    rw [hg]
    rfl
  refine ⟨ok, rfl, List.nodup_nil, fun t ht => ?_, by simp [RouteResultEntry.new], by simp [RouteResultEntry.new], ?_, rfl,
    by simp [RouteResultEntry.new], by simp [RouteResultEntry.new], Nat.zero_le _⟩
  · obtain ⟨E, ok'⟩ := ok.groups g
    have hE : E = ∅ := by
      rw [← Finset.card_eq_zero, ok'.card_eq, empty]
    have := (ok'.mem_iff t).2 ht
    rw [hE] at this
    simp at this
  · rw [empty]
    rfl

/-- **An entry that `init` has made is in order.** -/
theorem RouteSys.Init.ok (init : s.Init) : ∃ g, s.Ok g := by
  obtain ⟨before, addrs, g, grown, fresh, two, run, hthread, hheld, -⟩ := init
  match addrs, two with
  | a :: b :: addrs, two =>
    unfold RouteResultEntry.init at run
    obtain ⟨run1, run2⟩ := Prod.mk.inj run
    obtain ⟨e', he', hentry⟩ := Option.map_eq_some_iff.1 run2
    have made : ∀ t ∈ (a :: b :: addrs).filterMap id, (before.sched.target t).group = none ∧
        (before.sched.target t).waitCnt = 0 := by
      intro t ht
      obtain ⟨n, i, -, e⟩ := fresh.target t ht
      rw [(init_target e).2]
      exact ⟨rfl, rfl⟩
    have grows := addGroupTargets_spec g grown (a :: b :: addrs) before.sched s.sys.sched _ e' fresh.routeOk
      (by simp [RouteResultEntry.new]) (fun t ht => ⟨by simp [RouteResultEntry.new], made t ht⟩) fresh.nodup
      (Prod.ext run1 he')
    obtain ⟨x₀, init₀, run₀⟩ := fresh.reached
    refine ⟨g, ?_, fun t => ?_, ?_, fun c t ht => ?_⟩
    · rw [← hentry]
      exact { grows.ok with }
    · rw [hheld, grows.curLoad]
      exact (reaches_ok init₀ run₀).held t
    · rw [← hentry]
      show 1 ≤ e'.nleft
      rw [grows.nleft, List.length_cons]
      show (1 : Int) ≤ 0 + _
      omega
    · rw [← hentry] at ht
      rw [hthread]
      apply fresh.thread
      rcases grows.own t ht with ht | ht
      · simp [RouteResultEntry.new] at ht
      · exact ht

/-- **In every state that any sequence of calls and sections reaches, `nleft` is the number of targets in the group and
not zero, `nbreak` the length of `breaker_list`, and a target outside the group has a node.** -/
theorem breaker_bookkeeping (init : s₀.Init) (run : Reaches RouteStep always s₀ s) :
    s.entry.nleft = s.members.length ∧ 1 ≤ s.entry.nleft ∧ s.entry.nbreak = s.entry.breakerList.length ∧
    (∀ t ∈ s.entry.targets, t ∉ s.members → ∃ node ∈ s.entry.breakerList, node.target = t) ∧
    ∀ g, s.entry.group = some g → (s.sys.sched.group g).heapSize = s.members.length := by
  obtain ⟨g, ok₀⟩ := init.ok
  have ok : s.Ok g := run.keeps (P := fun s => s.Ok g) (fun _ _ _ h _ step => step.ok h) ok₀
  have members : s.members = s.entry.targets.filter fun t => (s.sys.sched.target t).group = some g := by
    unfold RouteSys.members
    rw [ok.route.group]
  have size : (s.sys.sched.group g).heapSize = s.members.length := by rw [ok.route.size_eq, members]
  refine ⟨by rw [ok.route.nleft, size], ok.one_le, ok.route.nbreak, fun t own out => ?_, fun g' hg => ?_⟩
  · refine (ok.route.kept t own).resolve_left fun ht => out ?_
    rw [members, List.mem_filter]
    exact ⟨own, decide_eq_true ht⟩
  · rw [ok.route.group] at hg
    cases hg
    exact size

end

/-- Two targets and a group, none of them used yet. -/
def twoTargets : Sys Bool Unit (Fin 2) where
  sched :=
    { target := fun _ => { maxLoad := 2, curLoad := 0, waitCnt := 0, index := 0, group := none }
      group := fun _ => CommSchedGroup.init fun _ => false }
  thread := fun _ => .running
  held := fun _ => 0

/-- The entry made of them. -/
def twoRoutes : RouteSys Bool Unit (Fin 2) :=
  let r := RouteResultEntry.init twoTargets.sched [some false, some true] (some ()) fun _ => true
  { sys := { twoTargets with sched := r.1 }, entry := r.2.getD .new, checking := none }

theorem twoRoutes_init : twoRoutes.Init := by
  refine ⟨twoTargets, [some false, some true], (), fun _ => true, ⟨⟨twoTargets, ?_, .start⟩, ⟨_, rfl⟩, ?_, ?_, ?_⟩,
    le_refl _, ?_, rfl, rfl, rfl⟩
  · exact ⟨fun _ => ⟨2, 0, by decide, rfl⟩, fun _ => ⟨_, rfl⟩, fun _ => rfl, fun _ => rfl⟩
  · exact fun _ _ => ⟨2, 0, by decide, rfl⟩
  · exact fun _ _ _ => by simp [twoTargets, Thread.object]
  · decide
  · rfl

/-- One target taken out, the other cannot be: `nleft` is 1. -/
theorem breaker_bookkeeping_out : ∃ s, Reaches RouteStep always twoRoutes s ∧ s.entry.breakerList.length = 1 ∧
    s.members = [true] ∧ s.entry.nleft = s.members.length := by
  have r0 : Reaches RouteStep always twoRoutes twoRoutes := .start
  have r1 := r0.next (a := RouteAction.notifyUnavailable false 5) trivial (.notifyUnavailable false 5 rfl (by decide))
  have r2 := r1.next (a := RouteAction.notifyUnavailable true 6) trivial (.notifyUnavailable true 6 rfl (by decide))
  exact ⟨_, r2, by decide, by decide, (breaker_bookkeeping twoRoutes_init r2).1⟩

end Tinywf
