import Tinywf.InorderTree
import Mathlib.Data.List.TakeWhile
import Mathlib.Logic.Function.Basic
/-!
# TimeoQueue — the poller's timers

Nodes with a timeout stand in a list as long as they come in order, and in a tree otherwise; `treeFirst` and `treeLast`
are kept beside the tree.  `TimeoQueue.Ok` is that both are sorted, that the two ends are the tree's, and that every node
stands in one place, as its flag says.  Inserting a node and taking one out keep it, and inserting says to set the timer
if the node comes before all others, and only then leaves it if some other one does not come later
(`insertNode_ok`).
-/
namespace Tinywf

open InorderTree

/-! ## Times -/

/-- A normalised `struct timespec`. -/
structure Timespec where
  sec : Nat
  nsec : Nat
  normal : nsec < 1000000000
deriving DecidableEq

namespace Timespec

def ns (t : Timespec) : Nat := t.sec * 1000000000 + t.nsec

/-- The sum as the source normalises it: one second is carried. -/
def plus (t : Timespec) (sec nsec : Nat) (h : nsec < 1000000000) : Timespec :=
  if c : t.nsec + nsec ≥ 1000000000 then
    ⟨t.sec + sec + 1, t.nsec + nsec - 1000000000, by have := t.normal; omega⟩
  else ⟨t.sec + sec, t.nsec + nsec, by omega⟩

/-- `__poller_node_set_timeout`, `timeout` being milliseconds. -/
def after (clock : Timespec) (timeout : Nat) : Timespec :=
  clock.plus (timeout / 1000) (timeout % 1000 * 1000000) (by omega)

theorem ns_plus (t : Timespec) (sec nsec : Nat) (h : nsec < 1000000000) :
    (t.plus sec nsec h).ns = t.ns + (sec * 1000000000 + nsec) := by
  unfold plus ns
  split <;> dsimp only <;> omega

end Timespec

/-- `__timeout_cmp`. -/
def timeoutCmp (a b : Timespec) : Int :=
  if (a.sec : Int) - b.sec = 0 then (a.nsec : Int) - b.nsec else (a.sec : Int) - b.sec

theorem timeoutCmp_lt {a b : Timespec} : timeoutCmp a b < 0 ↔ a.ns < b.ns := by
  have ha := a.normal
  have hb := b.normal
  unfold timeoutCmp Timespec.ns
  split <;> omega

theorem timeoutCmp_le {a b : Timespec} : timeoutCmp a b ≤ 0 ↔ a.ns ≤ b.ns := by
  have ha := a.normal
  have hb := b.normal
  unfold timeoutCmp Timespec.ns
  split <;> omega

theorem timeoutCmp_ge {a b : Timespec} : 0 ≤ timeoutCmp a b ↔ b.ns ≤ a.ns := by
  have := timeoutCmp_lt (a := a) (b := b)
  omega

/-! ## The queue -/

/-- A node, as one pointer and no other stands for it. -/
abbrev NodeId := Nat

structure TimeoQueue where
  /-- `node->timeout` -/
  timeout : NodeId → Timespec
  /-- `node->in_rbtree` -/
  inRbtree : NodeId → Bool
  timeoTree : BinaryTree NodeId
  treeFirst : Option NodeId
  treeLast : Option NodeId
  timeoList : List NodeId
  noTimeoList : List NodeId

namespace TimeoQueue

section Operations

variable (B : Balance NodeId)

def cmp (q : TimeoQueue) (n m : NodeId) : Int := timeoutCmp (q.timeout n) (q.timeout m)

/-- The way down `__poller_tree_insert` goes when the node comes before the last. -/
def descend (n : NodeId) (q : TimeoQueue) : TimeoQueue :=
  { q with
    treeFirst := if place (fun e => decide (q.cmp n e < 0)) q.timeoTree = q.treeFirst.map (·, true) then some n
      else q.treeFirst
    timeoTree := hang n (fun e => decide (q.cmp n e < 0)) q.timeoTree }

/-- Where `__poller_tree_insert` links the node. -/
def link (n : NodeId) (q : TimeoQueue) : TimeoQueue := match q.timeoTree with
  | .nil => { q with treeFirst := some n, treeLast := some n, timeoTree := .node n .nil .nil }
  | _ => match q.treeLast with
    | some e =>
      if 0 ≤ q.cmp n e then { q with treeLast := some n, timeoTree := linkRight e n q.timeoTree } else q.descend n
    | none => q.descend n

/-- `__poller_tree_insert`. -/
def treeInsert (n : NodeId) (q : TimeoQueue) : TimeoQueue :=
  { q.link n with
    inRbtree := Function.update q.inRbtree n true
    timeoTree := B.insertColor n (q.link n).timeoTree }

/-- `__poller_tree_erase`. -/
def treeErase (n : NodeId) (q : TimeoQueue) : TimeoQueue :=
  { q with
    treeFirst := if q.treeFirst = some n then next q.timeoTree n else q.treeFirst
    treeLast := if q.treeLast = some n then prev q.timeoTree n else q.treeLast
    timeoTree := B.erase n q.timeoTree
    inRbtree := Function.update q.inRbtree n false }

/-- `list_del` of a node that stands in one of the two lists. -/
def listDel (n : NodeId) (q : TimeoQueue) : TimeoQueue :=
  { q with timeoList := q.timeoList.erase n, noTimeoList := q.noTimeoList.erase n }

/-- Out of the tree or its list, as the flag says. -/
def unlink (n : NodeId) (q : TimeoQueue) : TimeoQueue := if q.inRbtree n then q.treeErase B n else q.listDel n

/-- The last test of `__poller_insert_node`; `e` is `end`. -/
def earlier (n : NodeId) (e : Option NodeId) (q : TimeoQueue) : Bool :=
  q.treeFirst.isNone || e.any fun e => decide (q.cmp n e < 0)

/-- `__poller_insert_node`, and whether it sets the timer. -/
def insertNode (n : NodeId) (q : TimeoQueue) : TimeoQueue × Bool := match q.timeoList.getLast? with
  | none => ({ q with timeoList := n :: q.timeoList }, q.earlier n q.treeFirst)
  | some e =>
    if 0 ≤ q.cmp n e then ({ q with timeoList := q.timeoList ++ [n] }, false)
    else if (q.treeInsert B n).treeFirst ≠ some n then (q.treeInsert B n, false)
    else (q.treeInsert B n, (q.treeInsert B n).earlier n (q.treeInsert B n).timeoList.head?)

/-- `list_add_tail` to `no_timeo_list`. -/
def addNoTimeo (n : NodeId) (q : TimeoQueue) : TimeoQueue := { q with noTimeoList := q.noTimeoList ++ [n] }

/-- Takes the nodes off the tree that are due before `time`, at most `k`. -/
def expireTree (time : Timespec) : Nat → TimeoQueue → List NodeId × TimeoQueue
  | 0, q => ([], q)
  | k + 1, q => match q.treeFirst with
    | none => ([], q)
    | some n =>
      if timeoutCmp (q.timeout n) time < 0 then
        let r := expireTree time k
          { q with
            treeFirst := next q.timeoTree n
            treeLast := if (next q.timeoTree n).isSome then q.treeLast else none
            timeoTree := B.erase n q.timeoTree }
        (n :: r.1, r.2)
      else ([], q)

/-- The nodes `__poller_handle_timeout` takes, in its order, and the queue without them. -/
def expire (time : Timespec) (q : TimeoQueue) : List NodeId × TimeoQueue :=
  let due := fun n => decide (timeoutCmp (q.timeout n) time ≤ 0)
  let r := expireTree B time (inorder q.timeoTree).length { q with timeoList := q.timeoList.dropWhile due }
  (q.timeoList.takeWhile due ++ r.1, r.2)

end Operations

/-! ## What the queue keeps -/

/-- When a node is due. -/
def due (q : TimeoQueue) (n : NodeId) : Nat := (q.timeout n).ns

/-- The nodes with a timeout. -/
def timed (q : TimeoQueue) : List NodeId := q.timeoList ++ inorder q.timeoTree

def members (q : TimeoQueue) : List NodeId := q.timed ++ q.noTimeoList

structure Ok (q : TimeoQueue) : Prop where
  list : q.timeoList.Pairwise fun a b => q.due a ≤ q.due b
  tree : (inorder q.timeoTree).Pairwise fun a b => q.due a ≤ q.due b
  first : q.treeFirst = (inorder q.timeoTree).head?
  last : q.treeLast = (inorder q.timeoTree).getLast?
  nodup : q.members.Nodup
  flag : ∀ n ∈ q.members, q.inRbtree n = true ↔ n ∈ inorder q.timeoTree

variable {B : Balance NodeId} {q : TimeoQueue} {n : NodeId}

theorem cmp_lt {m : NodeId} : q.cmp n m < 0 ↔ q.due n < q.due m := timeoutCmp_lt

theorem cmp_ge {m : NodeId} : 0 ≤ q.cmp n m ↔ q.due m ≤ q.due n := timeoutCmp_ge

theorem Ok.tree_nodup (h : q.Ok) : (inorder q.timeoTree).Nodup := by
  have := h.nodup
  rw [members, timed, List.nodup_append, List.nodup_append] at this
  exact this.1.2.1

theorem sorted_le_last {l : List NodeId} {e : NodeId} (h : l.Pairwise fun a b => q.due a ≤ q.due b)
    (he : l.getLast? = some e) : ∀ a ∈ l, q.due a ≤ q.due e := by
  intro a ha
  obtain ⟨l', rfl⟩ := List.getLast?_eq_some_iff.1 he
  rcases List.mem_append.1 ha with ha | ha
  · exact (List.pairwise_append.1 h).2.2 a ha e (List.mem_singleton_self e)
  · exact Nat.le_of_eq (by rw [List.mem_singleton.1 ha])

theorem sorted_head_le {l : List NodeId} {e : NodeId} (h : l.Pairwise fun a b => q.due a ≤ q.due b)
    (he : l.head? = some e) : ∀ a ∈ l, q.due e ≤ q.due a := by
  intro a ha
  obtain ⟨l', rfl⟩ := List.head?_eq_some_iff.1 he
  rcases List.mem_cons.1 ha with rfl | ha
  · exact Nat.le_refl _
  · exact (List.pairwise_cons.1 h).1 a ha

/-! ## Into the tree -/

/-- **`__poller_tree_insert` puts a node behind all that are not due later**, and keeps the two ends. -/
theorem link_spec (n : NodeId) (h : q.Ok) :
    ∃ l₁ l₂, inorder q.timeoTree = l₁ ++ l₂ ∧ inorder (q.link n).timeoTree = l₁ ++ n :: l₂ ∧
      (∀ a ∈ l₁, q.due a ≤ q.due n) ∧ (∀ a ∈ l₂, q.due n < q.due a) ∧
      (q.link n).treeFirst = (l₁ ++ n :: l₂).head? ∧ (q.link n).treeLast = (l₁ ++ n :: l₂).getLast? := by
  unfold link
  split
  · rename_i ht
    rw [ht]
    exact ⟨[], [], rfl, rfl, by simp, by simp, rfl, rfl⟩
  rename_i hne
  have hne : inorder q.timeoTree ≠ [] := fun h => hne (inorder_eq_nil.1 h)
  rw [h.last]
  cases hlast : (inorder q.timeoTree).getLast? with
  | none => exact absurd (List.getLast?_eq_none_iff.1 hlast) hne
  | some e =>
    dsimp only
    split
    · rename_i hge
      have hge := cmp_ge.1 hge
      refine ⟨inorder q.timeoTree, [], by simp, inorder_linkRight h.tree_nodup hlast, fun a ha => ?_, by simp, ?_, ?_⟩
      · exact Nat.le_trans (sorted_le_last h.tree hlast a ha) hge
      · show q.treeFirst = _
        rw [h.first]
        cases hin : inorder q.timeoTree with
        | nil => exact absurd hin hne
        | cons a l => rfl
      · rw [List.getLast?_concat]
    · rename_i hlt
      have hmono : (inorder q.timeoTree).Pairwise fun a b =>
          decide (q.cmp n a < 0) = true → decide (q.cmp n b < 0) = true := by
        refine h.tree.imp fun {a b} hab ha => ?_
        rw [decide_eq_true_iff, cmp_lt] at ha ⊢
        exact Nat.lt_of_lt_of_le ha hab
      obtain ⟨l₁, l₂, hin, hhang, h₁, h₂, hplace⟩ := inorder_hang n _ q.timeoTree hmono
      have h₁ : ∀ a ∈ l₁, q.due a ≤ q.due n := fun a ha => by
        have := h₁ a ha
        rw [decide_eq_false_iff_not, cmp_lt] at this
        exact Nat.le_of_not_lt this
      have h₂ : ∀ a ∈ l₂, q.due n < q.due a := fun a ha => by
        have := h₂ a ha
        rwa [decide_eq_true_iff, cmp_lt] at this
      have hdue : q.due n < q.due e := by
        rw [cmp_ge] at hlt
        exact Nat.lt_of_not_le hlt
      -- the last node is due later, so it stays the last
      have hl₂ : l₂ ≠ [] := by
        rintro rfl
        rw [List.append_nil] at hin
        have := h₁ e (hin ▸ List.mem_of_getLast? hlast)
        omega
      refine ⟨l₁, l₂, hin, hhang, h₁, h₂, ?_, ?_⟩
      · have hfirst : q.treeFirst = (l₁ ++ l₂).head? := hin ▸ h.first
        have hsome : (place (fun e => decide (q.cmp n e < 0)) q.timeoTree).isSome :=
          place_isSome fun ht => hne (inorder_eq_nil.2 ht)
        obtain ⟨⟨p, side⟩, hp⟩ := Option.isSome_iff_exists.1 hsome
        have hplace := hplace p
        unfold descend
        dsimp only
        rw [hp, hfirst]
        cases hl₁ : l₁ with
        | nil =>
          cases side with
          | false =>
            have := hplace.2 hp
            rw [hl₁] at this
            cases this
          | true =>
            rw [if_pos (by rw [List.nil_append, hplace.1 hp]; rfl)]
            rfl
        | cons a l =>
          rw [if_neg]
          · rfl
          · intro heq
            have heq : some (p, side) = some (a, true) := heq
            cases heq
            -- the place would be in front of the first node and behind it
            have hmem := List.mem_of_head? (hplace.1 hp)
            have hnd := h.tree_nodup
            rw [hin, hl₁, List.nodup_append] at hnd
            exact hnd.2.2 p List.mem_cons_self p hmem rfl
      · show q.treeLast = _
        rw [h.last, hin, List.getLast?_append, List.getLast?_append, List.getLast?_cons]
        cases hlast : l₂.getLast? with
        | none => exact absurd (List.getLast?_eq_none_iff.1 hlast) hl₂
        | some b => rfl

theorem link_frame (n : NodeId) (q : TimeoQueue) : (q.link n).timeout = q.timeout ∧ (q.link n).inRbtree = q.inRbtree ∧
    (q.link n).timeoList = q.timeoList ∧ (q.link n).noTimeoList = q.noTimeoList := by
  unfold link
  split
  · exact ⟨rfl, rfl, rfl, rfl⟩
  · split
    · split <;> exact ⟨rfl, rfl, rfl, rfl⟩
    · exact ⟨rfl, rfl, rfl, rfl⟩

theorem due_congr {q' : TimeoQueue} (h : q'.timeout = q.timeout) (n : NodeId) : q'.due n = q.due n := by
  rw [due, due, h]

theorem mem_members {m : NodeId} :
    m ∈ q.members ↔ m ∈ q.timeoList ∨ m ∈ inorder q.timeoTree ∨ m ∈ q.noTimeoList := by
  rw [members, timed, List.mem_append, List.mem_append, or_assoc]

theorem treeInsert_inorder (n : NodeId) (q : TimeoQueue) :
    inorder (q.treeInsert B n).timeoTree = inorder (q.link n).timeoTree := B.insertColor_inorder _ _

/-- **A node inserted into the tree**: where it stands, and what stays. -/
theorem treeInsert_ok (h : q.Ok) (hn : n ∉ q.members) : (q.treeInsert B n).Ok ∧
    (q.treeInsert B n).timeout = q.timeout ∧ (q.treeInsert B n).timeoList = q.timeoList ∧
    (q.treeInsert B n).noTimeoList = q.noTimeoList ∧
    ∃ l₁ l₂, inorder q.timeoTree = l₁ ++ l₂ ∧ inorder (q.treeInsert B n).timeoTree = l₁ ++ n :: l₂ ∧
      (∀ a ∈ l₁, q.due a ≤ q.due n) ∧ (∀ a ∈ l₂, q.due n < q.due a) := by
  obtain ⟨l₁, l₂, hin, hin', h₁, h₂, hfirst, hlast⟩ := link_spec n h
  obtain ⟨ht, hf, hl, hno⟩ := link_frame n q
  have hinorder : inorder (q.treeInsert B n).timeoTree = l₁ ++ n :: l₂ := (treeInsert_inorder n q).trans hin'
  have htime : (q.treeInsert B n).timeout = q.timeout := ht
  have hlist : (q.treeInsert B n).timeoList = q.timeoList := hl
  have hnolist : (q.treeInsert B n).noTimeoList = q.noTimeoList := hno
  have hmembers : (q.treeInsert B n).members.Perm (n :: q.members) := by
    rw [members, members, timed, timed, hlist, hnolist, hinorder, hin]
    have : (q.timeoList ++ (l₁ ++ n :: l₂)).Perm (n :: (q.timeoList ++ (l₁ ++ l₂))) :=
      (List.Perm.append_left _ List.perm_middle).trans List.perm_middle
    exact this.append_right _
  refine ⟨⟨?_, ?_, ?_, ?_, ?_, fun m hm => ?_⟩, htime, hlist, hnolist, l₁, l₂, hin, hinorder, h₁, h₂⟩
  · rw [hlist]
    exact h.list.imp fun {a b} hab => by rw [due_congr htime, due_congr htime]; exact hab
  · have hsorted := pairwise_insert (R := fun a b => q.due a ≤ q.due b) (hin ▸ h.tree) h₁ fun a ha =>
      Nat.le_of_lt (h₂ a ha)
    rw [hinorder]
    refine hsorted.imp fun {a b} hab => ?_
    rw [due_congr htime, due_congr htime]
    exact hab
  · rw [hinorder]
    exact hfirst
  · rw [hinorder]
    exact hlast
  · rw [hmembers.nodup_iff]
    exact List.nodup_cons.2 ⟨hn, h.nodup⟩
  · rw [hinorder]
    have hflag : (q.treeInsert B n).inRbtree = Function.update q.inRbtree n true := rfl
    rw [hflag]
    rcases List.mem_cons.1 (hmembers.mem_iff.1 hm) with rfl | hm
    · simp
    · have hne : m ≠ n := fun he => hn (he ▸ hm)
      rw [Function.update_of_ne hne, h.flag m hm, hin]
      simp [hne]

/-! ## Out of its place -/

theorem treeErase_ok (h : q.Ok) (hn : n ∈ inorder q.timeoTree) :
    (q.treeErase B n).Ok ∧ inorder (q.treeErase B n).timeoTree = (inorder q.timeoTree).erase n := by
  have hnd := h.tree_nodup
  obtain ⟨l₁, l₂, hin⟩ := List.append_of_mem hn
  have hparts := hnd
  rw [hin, List.nodup_append, List.nodup_cons] at hparts
  have hn₁ : n ∉ l₁ := fun hm => hparts.2.2 n hm n List.mem_cons_self rfl
  have herase : (inorder q.timeoTree).erase n = l₁ ++ l₂ := by
    rw [hin, List.erase_append_right _ hn₁, List.erase_cons_head]
  have hinorder : inorder (q.treeErase B n).timeoTree = l₁ ++ l₂ := (B.erase_inorder n _ hnd hn).trans herase
  have hsub : (inorder (q.treeErase B n).timeoTree).Sublist (inorder q.timeoTree) := by
    rw [hinorder, ← herase]
    exact List.erase_sublist
  have hflag : ∀ m ≠ n, (q.treeErase B n).inRbtree m = q.inRbtree m := fun m hm => Function.update_of_ne hm ..
  have hmembers : (q.treeErase B n).members.Sublist q.members :=
    (List.Sublist.append_left hsub _).append_right _
  have hnot : n ∉ (q.treeErase B n).members := by
    have hall := h.nodup
    rw [mem_members, hinorder]
    rw [members, timed, List.nodup_append, List.nodup_append] at hall
    rintro (hm | hm | hm)
    · exact hall.1.2.2 n hm n hn rfl
    · rcases List.mem_append.1 hm with hm | hm
      · exact hn₁ hm
      · exact hparts.2.1.1 hm
    · exact hall.2.2 n (List.mem_append_right _ hn) n hm rfl
  refine ⟨⟨h.list, h.tree.sublist hsub, ?_, ?_, h.nodup.sublist hmembers, fun m hm => ?_⟩, hinorder.trans herase.symm⟩
  · show (if q.treeFirst = some n then next q.timeoTree n else q.treeFirst) = _
    rw [hinorder, h.first, hin]
    cases l₁ with
    | nil => exact (if_pos rfl).trans (next_inorder hnd hin)
    | cons a l =>
      rw [if_neg]
      · rfl
      · intro heq
        cases heq
        exact hn₁ List.mem_cons_self
  · show (if q.treeLast = some n then prev q.timeoTree n else q.treeLast) = _
    rw [hinorder, h.last, hin, List.getLast?_append, List.getLast?_append, List.getLast?_cons]
    cases hl₂ : l₂.getLast? with
    | none => exact (if_pos rfl).trans (prev_inorder hnd hin)
    | some b =>
      rw [if_neg]
      · rfl
      · intro heq
        have heq : b = n := Option.some.inj heq
        exact hparts.2.1.1 (heq ▸ List.mem_of_getLast? hl₂)
  · have hne : m ≠ n := fun he => hnot (he ▸ hm)
    rw [hflag m hne, h.flag m (hmembers.subset hm), hinorder, hin]
    simp [hne]

theorem listDel_ok (n : NodeId) (h : q.Ok) : (q.listDel n).Ok := by
  have hmembers : (q.listDel n).members.Sublist q.members :=
    (List.erase_sublist.append_right _).append List.erase_sublist
  exact ⟨h.list.sublist List.erase_sublist, h.tree, h.first, h.last, h.nodup.sublist hmembers, fun m hm =>
    h.flag m (hmembers.subset hm)⟩

/-- **A node taken out of its place**, as the flag says. -/
theorem unlink_ok (h : q.Ok) (hn : n ∈ q.members) : (q.unlink B n).Ok ∧
    (∀ m, m ∈ (q.unlink B n).members ↔ m ∈ q.members ∧ m ≠ n) ∧ (∀ m ∈ (q.unlink B n).timed, m ∈ q.timed) ∧
    (q.unlink B n).timeout = q.timeout ∧ (q.unlink B n).inRbtree n = false := by
  have hnd := h.nodup
  rw [members, timed, List.nodup_append, List.nodup_append] at hnd
  obtain ⟨⟨hlist, htree, hlt⟩, hno, hrest⟩ := hnd
  unfold unlink
  split
  · rename_i hf
    have hin := (h.flag n hn).1 hf
    obtain ⟨hok, hinorder⟩ := treeErase_ok (B := B) h hin
    have hnl : n ∉ q.timeoList := fun hm => hlt n hm n hin rfl
    have hnn : n ∉ q.noTimeoList := fun hm => hrest n (List.mem_append_right _ hin) n hm rfl
    refine ⟨hok, fun m => ?_, fun m hm => ?_, rfl, Function.update_self ..⟩
    · rw [mem_members, mem_members, hinorder, htree.mem_erase_iff]
      show m ∈ q.timeoList ∨ _ ∨ m ∈ q.noTimeoList ↔ _
      constructor
      · rintro (hm | ⟨hne, hm⟩ | hm)
        · exact ⟨Or.inl hm, fun he => hnl (he ▸ hm)⟩
        · exact ⟨Or.inr (Or.inl hm), hne⟩
        · exact ⟨Or.inr (Or.inr hm), fun he => hnn (he ▸ hm)⟩
      · rintro ⟨hm | hm | hm, hne⟩
        · exact Or.inl hm
        · exact Or.inr (Or.inl ⟨hne, hm⟩)
        · exact Or.inr (Or.inr hm)
    · rw [timed, List.mem_append, hinorder] at hm
      rw [timed, List.mem_append]
      exact hm.imp_right List.mem_of_mem_erase
  · rename_i hf
    have hin : n ∉ inorder q.timeoTree := fun hm => hf ((h.flag n hn).2 hm)
    refine ⟨listDel_ok n h, fun m => ?_, fun m hm => ?_, rfl, Bool.eq_false_iff.2 hf⟩
    · rw [mem_members, mem_members]
      show m ∈ q.timeoList.erase n ∨ m ∈ inorder q.timeoTree ∨ m ∈ q.noTimeoList.erase n ↔ _
      rw [hlist.mem_erase_iff, hno.mem_erase_iff]
      constructor
      · rintro (⟨hne, hm⟩ | hm | ⟨hne, hm⟩)
        · exact ⟨Or.inl hm, hne⟩
        · exact ⟨Or.inr (Or.inl hm), fun he => hin (he ▸ hm)⟩
        · exact ⟨Or.inr (Or.inr hm), hne⟩
      · rintro ⟨hm | hm | hm, hne⟩
        · exact Or.inl ⟨hne, hm⟩
        · exact Or.inr (Or.inl hm)
        · exact Or.inr (Or.inr ⟨hne, hm⟩)
    · rw [timed, List.mem_append] at hm ⊢
      exact hm.imp_left List.mem_of_mem_erase

/-! ## A node comes in -/

theorem earlier_iff {e : NodeId} : q.earlier n (some e) = true ↔ q.treeFirst = none ∨ q.due n < q.due e := by
  rw [earlier, Option.any_some, Bool.or_eq_true, Option.isNone_iff_eq_none, decide_eq_true_iff, cmp_lt]

/-- **`__poller_insert_node`**: the node comes in, and the timer is set if it is due before all others, and left only if
another is not due later. -/
theorem insertNode_ok (h : q.Ok) (hn : n ∉ q.members) (hf : q.inRbtree n = false) :
    (q.insertNode B n).1.Ok ∧ (∀ m, m ∈ (q.insertNode B n).1.members ↔ m = n ∨ m ∈ q.members) ∧
      (∀ m, m ∈ (q.insertNode B n).1.timed ↔ m = n ∨ m ∈ q.timed) ∧ (q.insertNode B n).1.timeout = q.timeout ∧
      ((q.insertNode B n).2 = true → ∀ m ∈ q.timed, q.due n ≤ q.due m) ∧
      ((q.insertNode B n).2 = false → ∃ m ∈ q.timed, q.due m ≤ q.due n) := by
  have hmem := hn
  rw [mem_members, not_or, not_or] at hmem
  obtain ⟨hnl, hnt, hnn⟩ := hmem
  unfold insertNode
  split
  · rename_i hlast
    have hnil := List.getLast?_eq_none_iff.1 hlast
    have htimed : q.timed = inorder q.timeoTree := by rw [timed, hnil, List.nil_append]
    refine ⟨⟨?_, h.tree, h.first, h.last, ?_, fun m hm => ?_⟩, fun m => ?_, fun m => ?_, rfl, fun hearly m hm => ?_,
      fun hearly => ?_⟩
    · rw [hnil]
      exact List.pairwise_singleton ..
    · exact List.nodup_cons.2 ⟨hn, h.nodup⟩
    · rcases List.mem_cons.1 hm with rfl | hm
      · rw [hf]
        exact ⟨fun h => (by cases h), fun hm => absurd hm hnt⟩
      · exact h.flag m hm
    · exact List.mem_cons
    · exact List.mem_cons
    · rw [htimed] at hm
      cases he : q.treeFirst with
      | none =>
        rw [h.first, List.head?_eq_none_iff] at he
        rw [he] at hm
        cases hm
      | some e =>
        rw [he] at hearly
        rcases earlier_iff.1 hearly with hnone | hlt
        · rw [he] at hnone
          cases hnone
        · exact Nat.le_trans (Nat.le_of_lt hlt) (sorted_head_le h.tree (h.first ▸ he) m hm)
    · cases he : q.treeFirst with
      | none =>
        rw [he, earlier, he] at hearly
        cases hearly
      | some e =>
        rw [he] at hearly
        refine ⟨e, ?_, ?_⟩
        · rw [htimed]
          exact List.mem_of_head? (h.first ▸ he)
        · by_contra hlt
          rw [earlier_iff.2 (Or.inr (Nat.lt_of_not_le hlt))] at hearly
          cases hearly
  · rename_i e hlast
    have hle := sorted_le_last h.list hlast
    split
    · rename_i hge
      have hge := cmp_ge.1 hge
      have hptimed : (q.timeoList ++ [n] ++ inorder q.timeoTree).Perm (n :: q.timed) := by
        rw [List.append_assoc, timed]
        exact List.perm_middle
      have hperm : (q.timeoList ++ [n] ++ inorder q.timeoTree ++ q.noTimeoList).Perm (n :: q.members) :=
        hptimed.append_right _
      refine ⟨⟨?_, h.tree, h.first, h.last, ?_, fun m hm => ?_⟩, fun m => ?_, fun m => ?_, rfl, fun hearly => (by cases hearly),
        fun _ => ⟨e, List.mem_append_left _ (List.mem_of_getLast? hlast), hge⟩⟩
      · exact pairwise_insert (by rw [List.append_nil]; exact h.list) (fun a ha => Nat.le_trans (hle a ha) hge) (by simp)
      · exact hperm.nodup_iff.2 (List.nodup_cons.2 ⟨hn, h.nodup⟩)
      · rcases List.mem_cons.1 (hperm.mem_iff.1 hm) with rfl | hm
        · rw [hf]
          exact ⟨fun h => (by cases h), fun hm => absurd hm hnt⟩
        · exact h.flag m hm
      · exact hperm.mem_iff.trans List.mem_cons
      · exact hptimed.mem_iff.trans List.mem_cons
    · rename_i hlt
      rw [cmp_ge] at hlt
      obtain ⟨hok, htime, hlist, hno, l₁, l₂, hin, hin', h₁, h₂⟩ := treeInsert_ok (B := B) h hn
      have hptimed : (q.treeInsert B n).timed.Perm (n :: q.timed) := by
        rw [timed, timed, hlist, hin', hin]
        exact (List.Perm.append_left _ List.perm_middle).trans List.perm_middle
      have htimed : ∀ m, m ∈ (q.treeInsert B n).timed ↔ m = n ∨ m ∈ q.timed := fun m =>
        hptimed.mem_iff.trans List.mem_cons
      have hperm : (q.treeInsert B n).members.Perm (n :: q.members) := by
        rw [members, hno, members]
        exact hptimed.append_right _
      have hmembers : ∀ m, m ∈ (q.treeInsert B n).members ↔ m = n ∨ m ∈ q.members := fun m =>
        hperm.mem_iff.trans List.mem_cons
      have hne : q.timeoList ≠ [] := fun hnil => by rw [hnil] at hlast; cases hlast
      obtain ⟨b, l, hbl⟩ := List.exists_cons_of_ne_nil hne
      have hb : q.timeoList.head? = some b := by rw [hbl]; rfl
      split
      · rename_i hfirst
        refine ⟨hok, hmembers, htimed, htime, fun hearly => (by cases hearly), fun _ => ?_⟩
        -- another node is still the tree's first
        rw [hok.first, hin'] at hfirst
        cases l₁ with
        | nil => exact absurd rfl hfirst
        | cons a l' =>
          refine ⟨a, List.mem_append_right _ ?_, h₁ a List.mem_cons_self⟩
          rw [hin]
          exact List.mem_append_left _ List.mem_cons_self
      · rename_i hfirst
        have hfirst := not_not.1 hfirst
        refine ⟨hok, hmembers, htimed, htime, fun hearly m hm => ?_, fun hearly => ?_⟩
        · have hearly : (q.treeInsert B n).earlier n (q.treeInsert B n).timeoList.head? = true := hearly
          rw [hlist, hb, earlier_iff, hfirst, due_congr htime, due_congr htime] at hearly
          have hnb : q.due n < q.due b := hearly.resolve_left (by simp)
          rcases List.mem_append.1 hm with hm | hm
          · exact Nat.le_trans (Nat.le_of_lt hnb) (sorted_head_le h.list hb m hm)
          · have hhead := hok.first ▸ hfirst
            have hm : m ∈ inorder (q.treeInsert B n).timeoTree := by
              rw [hin, List.mem_append] at hm
              rw [hin', List.mem_append]
              exact hm.imp_right (List.mem_cons_of_mem _)
            have := sorted_head_le hok.tree hhead m hm
            rwa [due_congr htime, due_congr htime] at this
        · refine ⟨b, List.mem_append_left _ (List.mem_of_head? hb), ?_⟩
          by_contra hnb
          have hearly : (q.treeInsert B n).earlier n (q.treeInsert B n).timeoList.head? = false := hearly
          rw [hlist, hb, earlier_iff.2 (Or.inr _)] at hearly
          · cases hearly
          · rw [due_congr htime, due_congr htime]
            exact Nat.lt_of_not_le hnb

theorem addNoTimeo_ok (h : q.Ok) (hn : n ∉ q.members) (hf : q.inRbtree n = false) :
    (q.addNoTimeo n).Ok ∧ ∀ m, m ∈ (q.addNoTimeo n).members ↔ m = n ∨ m ∈ q.members := by
  have hperm : (q.addNoTimeo n).members.Perm (n :: q.members) := by
    rw [members, ← List.singleton_append, members]
    exact (List.append_assoc q.timed q.noTimeoList [n] ▸ List.perm_append_comm)
  have hnt : n ∉ inorder q.timeoTree := fun hm => hn (mem_members.2 (Or.inr (Or.inl hm)))
  refine ⟨⟨h.list, h.tree, h.first, h.last, ?_, fun m hm => ?_⟩, fun m => hperm.mem_iff.trans List.mem_cons⟩
  · exact hperm.nodup_iff.2 (List.nodup_cons.2 ⟨hn, h.nodup⟩)
  · rcases List.mem_cons.1 (hperm.mem_iff.1 hm) with rfl | hm
    · show q.inRbtree m = true ↔ _
      rw [hf]
      exact ⟨fun h => (by cases h), fun hm => absurd hm hnt⟩
    · exact h.flag m hm

/-- Writing the fields of a node that stands nowhere. -/
theorem setNode_ok (h : q.Ok) (hn : n ∉ q.members) (t : Timespec) (b : Bool) :
    { q with timeout := Function.update q.timeout n t, inRbtree := Function.update q.inRbtree n b }.Ok := by
  have hne : ∀ m ∈ q.members, m ≠ n := fun m hm he => hn (he ▸ hm)
  have hdue : ∀ m ∈ q.members, (Function.update q.timeout n t m).ns = q.due m := fun m hm => by
    rw [Function.update_of_ne (hne m hm), due]
  refine ⟨?_, ?_, h.first, h.last, h.nodup, fun m hm => ?_⟩
  · refine h.list.imp_of_mem fun {a b} ha hb hab => ?_
    rw [due, due, hdue a (mem_members.2 (Or.inl ha)), hdue b (mem_members.2 (Or.inl hb))]
    exact hab
  · refine h.tree.imp_of_mem fun {a b} ha hb hab => ?_
    rw [due, due, hdue a (mem_members.2 (Or.inr (Or.inl ha))), hdue b (mem_members.2 (Or.inr (Or.inl hb)))]
    exact hab
  · show Function.update q.inRbtree n b m = true ↔ _
    rw [Function.update_of_ne (hne m hm)]
    exact h.flag m hm

/-! ## Nodes that are due -/

/-- Taking the first node off the tree, as `__poller_handle_timeout` does. -/
theorem dropFirst_ok (h : q.Ok) (hn : q.treeFirst = some n) :
    { q with
      treeFirst := next q.timeoTree n
      treeLast := if (next q.timeoTree n).isSome then q.treeLast else none
      timeoTree := B.erase n q.timeoTree }.Ok ∧
      inorder q.timeoTree = n :: inorder (B.erase n q.timeoTree) := by
  have hnd := h.tree_nodup
  obtain ⟨l, hin⟩ := List.head?_eq_some_iff.1 (h.first ▸ hn)
  have hmem : n ∈ inorder q.timeoTree := by rw [hin]; exact List.mem_cons_self
  have herase : inorder (B.erase n q.timeoTree) = l := by
    rw [B.erase_inorder n _ hnd hmem, hin, List.erase_cons_head]
  have hnext : next q.timeoTree n = l.head? := next_inorder hnd (show _ = [] ++ _ from hin)
  have hsub : l.Sublist (inorder q.timeoTree) := by
    rw [hin]
    exact List.sublist_cons_self ..
  have hmembers : (q.timeoList ++ l ++ q.noTimeoList).Sublist q.members :=
    (List.Sublist.append_left hsub _).append_right _
  rw [hnext]
  refine ⟨⟨h.list, ?_, ?_, ?_, ?_, fun m hm => ?_⟩, by rw [herase]; exact hin⟩
  · show (inorder (B.erase n q.timeoTree)).Pairwise _
    rw [herase]
    exact h.tree.sublist hsub
  · show l.head? = (inorder (B.erase n q.timeoTree)).head?
    rw [herase]
  · show (if l.head?.isSome then q.treeLast else none) = (inorder (B.erase n q.timeoTree)).getLast?
    rw [herase, h.last, hin]
    cases l <;> rfl
  · rw [members, timed]
    dsimp only
    rw [herase]
    exact h.nodup.sublist hmembers
  · rw [members, timed] at hm
    dsimp only at hm ⊢
    rw [herase] at hm ⊢
    rw [h.flag m (hmembers.subset hm), hin, List.mem_cons]
    refine ⟨fun hm' => hm'.resolve_left ?_, Or.inr⟩
    rintro rfl
    have hall := h.nodup
    rw [members, timed, hin] at hall
    have hperm : (q.timeoList ++ m :: l ++ q.noTimeoList).Perm (m :: (q.timeoList ++ l ++ q.noTimeoList)) :=
      (List.perm_middle.append_right _)
    exact (List.nodup_cons.1 (hperm.nodup_iff.1 hall)).1 hm

/-- **The loop of `__poller_handle_timeout` on the tree** takes those due before `time`. -/
theorem expireTree_ok (time : Timespec) (k : Nat) (h : q.Ok) (hk : (inorder q.timeoTree).length ≤ k) :
    (q.expireTree B time k).2.Ok ∧
      inorder q.timeoTree = (q.expireTree B time k).1 ++ inorder (q.expireTree B time k).2.timeoTree ∧
      (q.expireTree B time k).2.timeoList = q.timeoList ∧ (q.expireTree B time k).2.noTimeoList = q.noTimeoList ∧
      (q.expireTree B time k).2.timeout = q.timeout ∧ (∀ n ∈ (q.expireTree B time k).1, q.due n < time.ns) ∧
      ∀ n ∈ inorder (q.expireTree B time k).2.timeoTree, time.ns ≤ q.due n := by
  induction k generalizing q with
  | zero =>
    have hnil := List.eq_nil_of_length_eq_zero (Nat.le_zero.1 hk)
    refine ⟨h, rfl, rfl, rfl, rfl, (by simp [expireTree]), fun n hn => ?_⟩
    rw [expireTree, hnil] at hn
    cases hn
  | succ k ih =>
    rw [expireTree]
    split
    · rename_i hf
      have hnil := List.head?_eq_none_iff.1 (h.first ▸ hf)
      refine ⟨h, rfl, rfl, rfl, rfl, (by simp), fun n hn => ?_⟩
      dsimp only at hn
      rw [hnil] at hn
      cases hn
    · rename_i n hf
      split
      · rename_i hlt
        obtain ⟨hok, hin⟩ := dropFirst_ok (B := B) h hf
        have hlen := hk
        rw [hin, List.length_cons] at hlen
        obtain ⟨h1, h2, h3, h4, h5, h6, h7⟩ := ih hok (by dsimp only; omega)
        refine ⟨h1, ?_, h3, h4, h5, fun m hm => ?_, h7⟩
        · rw [hin]
          exact congrArg (n :: ·) h2
        · rcases List.mem_cons.1 hm with rfl | hm
          · exact timeoutCmp_lt.1 hlt
          · exact h6 m hm
      · rename_i hge
        have hle := Nat.le_of_not_lt fun hlt => hge (timeoutCmp_lt.2 hlt)
        exact ⟨h, rfl, rfl, rfl, rfl, (by simp), fun m hm =>
          Nat.le_trans hle (sorted_head_le h.tree (h.first ▸ hf) m hm)⟩

/-- **`__poller_handle_timeout`** takes nodes that are due, and leaves none that is due before `time`. -/
theorem expire_ok (time : Timespec) (h : q.Ok) : (q.expire B time).2.Ok ∧
    ((q.expire B time).1 ++ (q.expire B time).2.members).Perm q.members ∧
    (∀ m ∈ (q.expire B time).2.timed, m ∈ q.timed) ∧ (q.expire B time).2.timeout = q.timeout ∧
    (∀ m ∈ (q.expire B time).1, q.due m ≤ time.ns) ∧ ∀ m ∈ (q.expire B time).2.timed, time.ns ≤ q.due m := by
  unfold expire
  dsimp only
  generalize hd : (fun n => decide (timeoutCmp (q.timeout n) time ≤ 0)) = d
  have hdue : ∀ m, d m = true ↔ q.due m ≤ time.ns := fun m => by
    rw [← hd, decide_eq_true_iff]
    exact timeoutCmp_le
  have hsplit : q.timeoList.takeWhile d ++ q.timeoList.dropWhile d = q.timeoList := List.takeWhile_append_dropWhile
  have hsub : (q.timeoList.dropWhile d).Sublist q.timeoList := (List.dropWhile_suffix d).sublist
  have hmembers : (q.timeoList.dropWhile d ++ inorder q.timeoTree ++ q.noTimeoList).Sublist q.members :=
    (hsub.append_right _).append_right _
  have hok : { q with timeoList := q.timeoList.dropWhile d }.Ok :=
    ⟨h.list.sublist hsub, h.tree, h.first, h.last, h.nodup.sublist hmembers, fun m hm => h.flag m (hmembers.subset hm)⟩
  obtain ⟨h1, h2, h3, h4, h5, h6, h7⟩ := expireTree_ok (B := B) time _ hok (Nat.le_refl _)
  generalize hr : expireTree B time (inorder q.timeoTree).length { q with timeoList := q.timeoList.dropWhile d } = r at *
  have htimed : ∀ m, m ∈ r.2.timed ↔ m ∈ q.timeoList.dropWhile d ∨ m ∈ inorder r.2.timeoTree := fun m => by
    rw [timed, h3, List.mem_append]
  have htree : ∀ m, m ∈ inorder q.timeoTree ↔ m ∈ r.1 ∨ m ∈ inorder r.2.timeoTree := fun m => by
    rw [show inorder q.timeoTree = _ from h2, List.mem_append]
  refine ⟨h1, ?_, fun m hm => ?_, h5, fun m hm => ?_, fun m hm => ?_⟩
  · rw [members, timed, members, timed, h3, h4]
    conv => rhs; rw [← hsplit, show inorder q.timeoTree = _ from h2]
    simp only [List.append_assoc]
    refine List.Perm.append_left _ ?_
    exact List.perm_append_comm_assoc ..
  · rw [timed, List.mem_append, htree]
    rcases (htimed m).1 hm with hm | hm
    · exact Or.inl (hsub.subset hm)
    · exact Or.inr (Or.inr hm)
  · rcases List.mem_append.1 hm with hm | hm
    · exact (hdue m).1 (List.mem_takeWhile_imp hm)
    · exact Nat.le_of_lt (h6 m hm)
  · rcases (htimed m).1 hm with hm | hm
    · -- behind the first node that is not due all are due later
      cases hdrop : q.timeoList.dropWhile d with
      | nil =>
        rw [hdrop] at hm
        cases hm
      | cons a l =>
        have hne : q.timeoList.dropWhile d ≠ [] := by rw [hdrop]; exact List.cons_ne_nil a l
        have ha : d a = false := by
          have := List.head_dropWhile_not d hne
          simpa only [hdrop, List.head_cons] using this
        have hhead : (q.timeoList.dropWhile d).head? = some a := by rw [hdrop]; rfl
        have hlt : ¬ q.due a ≤ time.ns := fun hle => by
          rw [(hdue a).2 hle] at ha
          cases ha
        exact Nat.le_trans (Nat.le_of_lt (Nat.lt_of_not_le hlt)) (sorted_head_le (h.list.sublist hsub) hhead m hm)
    · exact h7 m hm

end TimeoQueue

end Tinywf
