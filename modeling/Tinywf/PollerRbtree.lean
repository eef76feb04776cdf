import Tinywf.RbtreeOrder
import Tinywf.TimeoQueue
/-!
# PollerRbtree — the poller's timers with their tree in memory

`TimeoQueue` has the tree of the timers as a sequence, and leaves open what rebalancing does to its shape.  Here it is
the one of `rbtree.c`, and `tree_first` and `tree_last` are found by walks from node to node.  Every operation does what
it does there (`TimeoRb.Shows`), whatever shape rebalancing gives the tree there (`timeo_rb_refines`).
-/
namespace Tinywf

open RedBlack InorderTree

structure TimeoRb where
  timeout : NodeId → Timespec
  inRbtree : NodeId → Bool
  timeoTree : RbRoot NodeId
  treeFirst : Option NodeId
  treeLast : Option NodeId
  timeoList : List NodeId
  noTimeoList : List NodeId

namespace TimeoRb

def cmp (p : TimeoRb) (n m : NodeId) : Int := timeoutCmp (p.timeout n) (p.timeout m)

/-- Where `__poller_tree_insert` links the node. -/
def place (fuel : Nat) (n : NodeId) (p : TimeoRb) : Option (Option (NodeId × Side) × TimeoRb) :=
  match p.timeoTree.rbNode with
  | none => some (none, { p with treeFirst := some n, treeLast := some n })
  | some _ => do
    let entry ← p.treeLast
    if 0 ≤ p.cmp n entry then some (some (entry, .right), { p with treeLast := some n })
    else
      let link ← p.timeoTree.rbSearch (fun e => decide (p.cmp n e < 0)) fuel none
      some (link, if link = p.treeFirst.map (·, .left) then { p with treeFirst := some n } else p)

/-- `__poller_tree_insert`. -/
def treeInsert (fuel : Nat) (n : NodeId) (p : TimeoRb) : Option TimeoRb := do
  let (link, p) ← p.place fuel n
  let root ← (p.timeoTree.rbLinkNode n link).rbInsertColor fuel n
  some { p with inRbtree := Function.update p.inRbtree n true, timeoTree := root }

/-- `__poller_tree_erase`. -/
def treeErase (fuel : Nat) (n : NodeId) (p : TimeoRb) : Option TimeoRb := do
  let treeFirst ← (if p.treeFirst = some n then p.timeoTree.rbNext fuel n else some p.treeFirst)
  let treeLast ← (if p.treeLast = some n then p.timeoTree.rbPrev fuel n else some p.treeLast)
  let root ← p.timeoTree.rbErase fuel n
  some { p with
    treeFirst := treeFirst
    treeLast := treeLast
    timeoTree := root
    inRbtree := Function.update p.inRbtree n false }

/-- `list_del` of a node that stands in one of the two lists. -/
def listDel (n : NodeId) (p : TimeoRb) : TimeoRb :=
  { p with timeoList := p.timeoList.erase n, noTimeoList := p.noTimeoList.erase n }

/-- Out of the tree or its list, as the flag says. -/
def unlink (fuel : Nat) (n : NodeId) (p : TimeoRb) : Option TimeoRb :=
  if p.inRbtree n then p.treeErase fuel n else some (p.listDel n)

/-- The last test of `__poller_insert_node`; `e` is `end`. -/
def earlier (n : NodeId) (e : Option NodeId) (p : TimeoRb) : Bool :=
  p.treeFirst.isNone || e.any fun e => decide (p.cmp n e < 0)

/-- `__poller_insert_node`, and whether it sets the timer. -/
def insertNode (fuel : Nat) (n : NodeId) (p : TimeoRb) : Option (TimeoRb × Bool) := match p.timeoList.getLast? with
  | none => some ({ p with timeoList := n :: p.timeoList }, p.earlier n p.treeFirst)
  | some e =>
    if 0 ≤ p.cmp n e then some ({ p with timeoList := p.timeoList ++ [n] }, false)
    else do
      let p ← p.treeInsert fuel n
      some (p, if p.treeFirst ≠ some n then false else p.earlier n p.timeoList.head?)

/-- `list_add_tail` to `no_timeo_list`. -/
def addNoTimeo (n : NodeId) (p : TimeoRb) : TimeoRb := { p with noTimeoList := p.noTimeoList ++ [n] }

/-- The loop of `__poller_handle_timeout` over the tree. -/
def expireTree (fuel : Nat) (time : Timespec) : Nat → TimeoRb → Option (List NodeId × TimeoRb)
  | 0, _ => none
  | k + 1, p => match p.treeFirst with
    | none => some ([], p)
    | some n =>
      if timeoutCmp (p.timeout n) time < 0 then do
        let treeFirst ← p.timeoTree.rbNext fuel n
        let root ← p.timeoTree.rbErase fuel n
        let (nodes, p) ← expireTree fuel time k
          { p with
            treeFirst := treeFirst
            treeLast := if treeFirst.isSome then p.treeLast else none
            timeoTree := root }
        some (n :: nodes, p)
      else some ([], p)

/-- The nodes `__poller_handle_timeout` takes, in its order, and the queue without them. -/
def expire (fuel passes : Nat) (time : Timespec) (p : TimeoRb) : Option (List NodeId × TimeoRb) := do
  let due := fun n => decide (timeoutCmp (p.timeout n) time ≤ 0)
  let (nodes, p') ← expireTree fuel time passes { p with timeoList := p.timeoList.dropWhile due }
  some (p.timeoList.takeWhile due ++ nodes, p')

/-- `poller_stop` takes the nodes off the tree, root by root, to the front of the list. -/
def drainTree (fuel : Nat) : Nat → TimeoRb → Option TimeoRb
  | 0, _ => none
  | k + 1, p => match p.timeoTree.rbNode with
    | none => some p
    | some n => do
      let root ← p.timeoTree.rbErase fuel n
      drainTree fuel k { p with timeoTree := root, timeoList := n :: p.timeoList }

/-- The nodes that `poller_stop` calls back, in its order. -/
def stop (fuel passes : Nat) (p : TimeoRb) : Option (List NodeId) := do
  let p ← drainTree fuel passes { p with treeFirst := none, treeLast := none }
  some (p.noTimeoList ++ p.timeoList)

/-- What is written to a node before it is put into its place. -/
def setNode (n : NodeId) (t : Timespec) (p : TimeoRb) : TimeoRb :=
  { p with timeout := Function.update p.timeout n t, inRbtree := Function.update p.inRbtree n false }

/-- A poller that holds no node; what the fields of the nodes are is left open. -/
def start (timeout : NodeId → Timespec) (inRbtree : NodeId → Bool) (node : NodeId → RbNode NodeId) : TimeoRb :=
  ⟨timeout, inRbtree, ⟨none, node⟩, none, none, [], []⟩

/-! ## The two levels -/

/-- The queue with `tree` for its tree. -/
def view (p : TimeoRb) (tree : BinaryTree NodeId) : TimeoQueue where
  timeout := p.timeout
  inRbtree := p.inRbtree
  timeoTree := tree
  treeFirst := p.treeFirst
  treeLast := p.treeLast
  timeoList := p.timeoList
  noTimeoList := p.noTimeoList

/-- **The memory holds the queue**, its tree red-black and in the same order. -/
structure Shows (p : TimeoRb) (q : TimeoQueue) : Prop where
  tree : ∃ t, RbHolds p.timeoTree [] t ∧ t.IsRedBlack ∧ t.inorder = inorder q.timeoTree
  rest : q = p.view q.timeoTree

variable {B : Balance NodeId} {p : TimeoRb} {q : TimeoQueue} {n : NodeId} {fuel : Nat} {s s' : BinaryTree NodeId}

/-- The shape of the tree does not matter. -/
theorem reshape (h : (p.view s).Ok) (order : inorder s' = inorder s) : (p.view s').Ok := by
  obtain ⟨list, tree, first, last, nodup, flag⟩ := h
  have hmembers : (p.view s').members = (p.view s).members := by
    show p.timeoList ++ inorder s' ++ p.noTimeoList = p.timeoList ++ inorder s ++ p.noTimeoList
    rw [order]
  refine ⟨list, ?_, ?_, ?_, by rwa [hmembers], ?_⟩
  · show (inorder s').Pairwise _
    rw [order]
    exact tree
  · show p.treeFirst = (inorder s').head?
    rw [order]
    exact first
  · show p.treeLast = (inorder s').getLast?
    rw [order]
    exact last
  · rw [hmembers]
    show ∀ n ∈ _, p.inRbtree n = true ↔ n ∈ inorder s'
    rw [order]
    exact flag

/-- A list is split at one place into what passes a test and what does not. -/
theorem split_test {l₁ l₂ k₁ k₂ : List NodeId} {f : NodeId → Nat} {x : Nat} (h : l₁ ++ l₂ = k₁ ++ k₂)
    (h₁ : ∀ a ∈ l₁, f a ≤ x) (h₂ : ∀ a ∈ l₂, x < f a) (h₃ : ∀ a ∈ k₁, f a ≤ x) (h₄ : ∀ a ∈ k₂, x < f a) :
    l₁ = k₁ ∧ l₂ = k₂ := by
  have htake : ∀ {l l' : List NodeId}, (∀ a ∈ l, f a ≤ x) → (∀ a ∈ l', x < f a) →
      (l ++ l').takeWhile (fun a => decide (f a ≤ x)) = l := by
    intro l l' hl hl'
    rw [List.takeWhile_append_of_pos (fun a ha => decide_eq_true (hl a ha))]
    cases l' with
    | nil => simp
    | cons b l' =>
      rw [List.takeWhile_cons_of_neg (by have := hl' b List.mem_cons_self; simp; omega), List.append_nil]
  have heq : l₁ = k₁ := by
    rw [← htake h₁ h₂, h, htake h₃ h₄]
  subst heq
  exact ⟨rfl, List.append_cancel_left h⟩

/-- Nor does it for where a node is linked. -/
theorem link_reshape (h : (p.view s).Ok) (order : inorder s' = inorder s) (n : NodeId) :
    inorder ((p.view s').link n).timeoTree = inorder ((p.view s).link n).timeoTree ∧
      ((p.view s').link n).treeFirst = ((p.view s).link n).treeFirst ∧
      ((p.view s').link n).treeLast = ((p.view s).link n).treeLast := by
  obtain ⟨l₁, l₂, hin, hlink, h₁, h₂, hfirst, hlast⟩ := TimeoQueue.link_spec n h
  obtain ⟨k₁, k₂, hin', hlink', h₃, h₄, hfirst', hlast'⟩ := TimeoQueue.link_spec n (reshape h order)
  obtain ⟨rfl, rfl⟩ := split_test (hin'.symm.trans (order.trans hin)) h₃ h₄ h₁ h₂
  exact ⟨hlink'.trans hlink.symm, hfirst'.trans hfirst.symm, hlast'.trans hlast.symm⟩

/-! ## Into the tree -/

variable {t : RbTree NodeId}

theorem side_map_inj {a b : Option (NodeId × Bool)}
    (h : a.map (fun p => (p.1, RbRoot.sideOf p.2)) = b.map fun p => (p.1, RbRoot.sideOf p.2)) : a = b := by
  refine Option.map_injective (fun x y hxy => ?_) h
  obtain ⟨x, b⟩ := x
  obtain ⟨y, c⟩ := y
  cases b <;> cases c <;> cases hxy <;> rfl

/-- **The place that `__poller_tree_insert` finds** is the one it finds in the sequence. -/
theorem place_holds (H : RbHolds p.timeoTree [] t) (ok : (p.view t.bare).Ok) (n : NodeId) (enough : t.depth < fuel) :
    ∃ up p', p.place fuel n = some (linkOf up, p') ∧ t = plug up .nil ∧ p'.timeoTree = p.timeoTree ∧
      (plug up (.node .red n .nil .nil)).inorder = inorder ((p.view t.bare).link n).timeoTree ∧
      ∀ s, p'.view s = { (p.view t.bare).link n with timeoTree := s } := by
  have hroot : p.timeoTree.rbNode = t.root := H.way
  unfold place
  rw [hroot]
  cases ht : t with
  | nil => exact ⟨[], _, rfl, rfl, rfl, rfl, fun _ => rfl⟩
  | node c a l r =>
    rw [← ht]
    have hne : t.inorder ≠ [] := by
      rw [ht]
      simp
    obtain ⟨l₁, e, order⟩ := (List.eq_nil_or_concat' t.inorder).resolve_left hne
    have hlast : p.treeLast = some e := by
      have : p.treeLast = t.inorder.getLast? := ok.last
      rw [this, order, List.getLast?_concat]
    have hlink : (p.view t.bare).link n = if 0 ≤ p.cmp n e then
        { p.view t.bare with treeLast := some n, timeoTree := linkRight e n t.bare } else (p.view t.bare).descend n := by
      unfold TimeoQueue.link
      split
      · rename_i hnil
        have : t.bare = .nil := hnil
        rw [ht] at this
        cases this
      · have hentry : (p.view t.bare).treeLast = some e := hlast
        rw [hentry]
        rfl
    have hsome : t.root = some a := by rw [ht]; rfl
    rw [hsome, hlink, hlast]
    dsimp only [Option.bind_eq_bind, Option.bind_some]
    by_cases hcmp : 0 ≤ p.cmp n e
    · rw [if_pos hcmp, if_pos hcmp]
      obtain ⟨up, c, l, r, hplug, -, -, hnil⟩ := RbRoot.exists_holds H order
      obtain ⟨hr, hafter⟩ := List.append_eq_nil_iff.1 hnil.symm
      have hr : r = .nil := by
        cases r with
        | nil => rfl
        | node => simp at hr
      subst hr
      refine ⟨⟨.right, c, e, l⟩ :: up, _, rfl, hplug, rfl, ?_, fun _ => rfl⟩
      have hend : inorder (linkRight e n t.bare) = t.inorder ++ [n] :=
        inorder_linkRight ok.tree_nodup (by
          show t.inorder.getLast? = some e
          rw [order, List.getLast?_concat])
      rw [hend, hplug, inorder_plug, inorder_plug, hafter, List.append_nil]
      show before up ++ (l.inorder ++ [e]) ++ [n] ++ ([] ++ after up) = before up ++ (l.inorder ++ [e]) ++ [n]
      rw [hafter, List.append_nil, List.append_nil]
    · rw [if_neg hcmp, if_neg hcmp]
      obtain ⟨path, hplug, hsearch, hhang, hlinkOf⟩ :=
        RbRoot.rbSearch_holds H n (fun e => decide (p.cmp n e < 0)) enough
      rw [List.append_nil] at hsearch
      have hfirst : (linkOf path = p.treeFirst.map (·, Side.left)) ↔
          InorderTree.place (fun e => decide (p.cmp n e < 0)) t.bare = p.treeFirst.map (·, true) := by
        have hmap : p.treeFirst.map (·, Side.left) =
            (p.treeFirst.map (·, true)).map fun p => (p.1, RbRoot.sideOf p.2) := by
          cases p.treeFirst <;> rfl
        rw [hlinkOf, hmap]
        exact ⟨side_map_inj, fun h => by rw [h]⟩
      refine ⟨path, if linkOf path = p.treeFirst.map (·, Side.left) then { p with treeFirst := some n } else p, ?_, hplug,
        ?_, congrArg inorder hhang, fun s => ?_⟩
      · rw [show (none : Option (NodeId × Side)) = linkOf [] from rfl, hsearch, hlast]
        rfl
      · split <;> rfl
      · unfold TimeoQueue.descend
        show _ = ({ p.view t.bare with
          treeFirst := if InorderTree.place (fun e => decide (p.cmp n e < 0)) t.bare = p.treeFirst.map (·, true) then some n
            else p.treeFirst
          timeoTree := s } : TimeoQueue)
        by_cases hp : linkOf path = p.treeFirst.map (·, Side.left)
        · rw [if_pos hp, if_pos (hfirst.1 hp)]
          rfl
        · rw [if_neg hp, if_neg fun h => hp (hfirst.2 h)]
          rfl

/-- The tree is no deeper than twice the logarithm of what the queue holds. -/
theorem depth_lt (rb : t.IsRedBlack) (order : t.inorder = inorder s)
    (enough : 2 * Nat.log 2 ((p.view s).members.length + 1) < fuel) : t.depth < fuel := by
  refine (rb.depth_le_log.trans (Nat.mul_le_mul_left 2 (Nat.log_mono_right ?_))).trans_lt enough
  have : (p.view s).members.length = p.timeoList.length + (inorder s).length + p.noTimeoList.length := by
    rw [TimeoQueue.members, TimeoQueue.timed, List.length_append, List.length_append]
    rfl
  have : t.inorder.length = (inorder s).length := congrArg List.length order
  omega

/-- **`__poller_tree_insert`** does in memory what it does to the sequence. -/
theorem Shows.treeInsert (h : p.Shows q) (ok : q.Ok) (fresh : n ∉ q.members)
    (enough : 2 * Nat.log 2 (q.members.length + 1) < fuel) :
    ∃ p', p.treeInsert fuel n = some p' ∧ p'.Shows (q.treeInsert B n) := by
  obtain ⟨⟨t, H, rb, order⟩, rest⟩ := h
  generalize q.timeoTree = s at order rest
  subst rest
  have order : inorder t.bare = inorder s := order
  have hmem : n ∉ t.inorder := fun hn => fresh (TimeoQueue.mem_members.2 (.inr (.inl (order ▸ hn))))
  have hdepth := depth_lt rb order enough
  obtain ⟨up, p₁, hplace, hplug, htree, hin, hview⟩ := place_holds H (reshape ok order) n hdepth
  obtain ⟨hlink, hfirst, hlast⟩ := link_reshape ok order n
  obtain ⟨ht, hf, hl, hno⟩ := TimeoQueue.link_frame n (p.view s)
  obtain ⟨ht', hf', hl', hno'⟩ := TimeoQueue.link_frame n (p.view t.bare)
  have hup : up.length < fuel := by
    have := length_le_depth up .nil
    rw [← hplug] at this
    omega
  subst hplug
  have HP : RbHolds p.timeoTree up .nil := by
    have := RbHolds.downPath.1 H
    rwa [List.append_nil] at this
  obtain ⟨h', t', hcolor, H', hrb, horder⟩ := RbRoot.link_holds HP rb hmem hup
  refine ⟨{ p₁ with inRbtree := Function.update p₁.inRbtree n true, timeoTree := h' }, ?_, ⟨t', H', hrb, ?_⟩, ?_⟩
  · unfold TimeoRb.treeInsert
    rw [hplace]
    show ((p₁.timeoTree.rbLinkNode n (linkOf up)).rbInsertColor fuel n >>= _) = _
    rw [htree, hcolor]
    rfl
  · rw [TimeoQueue.treeInsert_inorder, horder, hin, hlink]
  · have hv := hview s
    have hto : p₁.timeout = ((p.view s).link n).timeout := (congrArg TimeoQueue.timeout hv).trans (ht'.trans ht.symm)
    have hfl : p₁.inRbtree = (p.view s).inRbtree := (congrArg TimeoQueue.inRbtree hv).trans hf'
    have hli : p₁.timeoList = ((p.view s).link n).timeoList := (congrArg TimeoQueue.timeoList hv).trans (hl'.trans hl.symm)
    have hnl : p₁.noTimeoList = ((p.view s).link n).noTimeoList :=
      (congrArg TimeoQueue.noTimeoList hv).trans (hno'.trans hno.symm)
    have hfi : p₁.treeFirst = ((p.view s).link n).treeFirst := (congrArg TimeoQueue.treeFirst hv).trans hfirst
    have hla : p₁.treeLast = ((p.view s).link n).treeLast := (congrArg TimeoQueue.treeLast hv).trans hlast
    unfold TimeoQueue.treeInsert view
    dsimp only
    rw [hto, hfl, hli, hnl, hfi, hla]
    rfl

/-! ## Out of it -/

/-- **`__poller_tree_erase`** does in memory what it does to the sequence. -/
theorem Shows.treeErase (h : p.Shows q) (ok : q.Ok) (hn : n ∈ inorder q.timeoTree)
    (enough : 2 * Nat.log 2 (q.members.length + 1) < fuel) :
    ∃ p', p.treeErase fuel n = some p' ∧ p'.Shows (q.treeErase B n) := by
  have hnd := ok.tree_nodup
  obtain ⟨⟨t, H, rb, order⟩, rest⟩ := h
  generalize q.timeoTree = s at order rest hn hnd
  subst rest
  obtain ⟨l₁, l₂, hin⟩ := List.append_of_mem hn
  have hdepth := depth_lt rb order enough
  obtain ⟨hnext, hprev⟩ := RbRoot.walk_holds H (order.trans hin) hdepth.le
  obtain ⟨h', t', herase, H', hrb, horder⟩ := RbRoot.erase_holds H rb (order.trans hin) hdepth
  have hl₁ : n ∉ l₁ := by
    rw [hin, List.nodup_append] at hnd
    exact fun hx => hnd.2.2 n hx n List.mem_cons_self rfl
  refine ⟨{ p with
    treeFirst := if p.treeFirst = some n then l₂.head? else p.treeFirst
    treeLast := if p.treeLast = some n then l₁.getLast? else p.treeLast
    timeoTree := h'
    inRbtree := Function.update p.inRbtree n false }, ?_, ⟨t', H', hrb, ?_⟩, ?_⟩
  · have hfirst : (if p.treeFirst = some n then p.timeoTree.rbNext fuel n else some p.treeFirst) =
        some (if p.treeFirst = some n then l₂.head? else p.treeFirst) := by
      split
      · exact hnext
      · rfl
    have hlast : (if p.treeLast = some n then p.timeoTree.rbPrev fuel n else some p.treeLast) =
        some (if p.treeLast = some n then l₁.getLast? else p.treeLast) := by
      split
      · exact hprev
      · rfl
    unfold TimeoRb.treeErase
    rw [hfirst, hlast, herase]
    rfl
  · show t'.inorder = inorder (B.erase n s)
    rw [horder, B.erase_inorder n s hnd hn, hin, List.erase_append_right _ hl₁, List.erase_cons_head]
  · unfold TimeoQueue.treeErase view
    dsimp only
    rw [next_inorder hnd hin, prev_inorder hnd hin]

theorem Shows.unlink (h : p.Shows q) (ok : q.Ok) (hn : n ∈ q.members)
    (enough : 2 * Nat.log 2 (q.members.length + 1) < fuel) :
    ∃ p', p.unlink fuel n = some p' ∧ p'.Shows (q.unlink B n) := by
  have hflag : p.inRbtree n = q.inRbtree n := congrArg (TimeoQueue.inRbtree · n) h.rest.symm
  unfold TimeoRb.unlink TimeoQueue.unlink
  rw [hflag]
  by_cases hr : q.inRbtree n = true
  · rw [if_pos hr, if_pos hr]
    exact h.treeErase ok ((ok.flag n hn).1 hr) enough
  · rw [if_neg hr, if_neg hr]
    obtain ⟨tree, rest⟩ := h
    generalize q.timeoTree = s at tree rest
    subst rest
    exact ⟨_, rfl, tree, rfl⟩

/-- **`__poller_insert_node`**, and it sets the timer when it does so there. -/
theorem Shows.insertNode (h : p.Shows q) (ok : q.Ok) (fresh : n ∉ q.members)
    (enough : 2 * Nat.log 2 (q.members.length + 1) < fuel) :
    ∃ p', p.insertNode fuel n = some (p', (q.insertNode B n).2) ∧ p'.Shows (q.insertNode B n).1 := by
  obtain ⟨p₁, hinsert, h₁⟩ := h.treeInsert (B := B) ok fresh enough
  obtain ⟨tree, rest⟩ := h
  generalize q.timeoTree = s at tree rest
  subst rest
  unfold TimeoRb.insertNode TimeoQueue.insertNode
  have hlist : (p.view s).timeoList = p.timeoList := rfl
  rw [hlist]
  cases p.timeoList.getLast? with
  | none => exact ⟨_, rfl, tree, rfl⟩
  | some e =>
    have hcmp : (p.view s).cmp n e = p.cmp n e := rfl
    dsimp only
    rw [hcmp]
    by_cases hge : 0 ≤ p.cmp n e
    · rw [if_pos hge, if_pos hge]
      exact ⟨_, rfl, tree, rfl⟩
    · rw [if_neg hge, if_neg hge, hinsert]
      have hfirst : ((p.view s).treeInsert B n).treeFirst = p₁.treeFirst := congrArg TimeoQueue.treeFirst h₁.rest
      have hearlier : ((p.view s).treeInsert B n).earlier n ((p.view s).treeInsert B n).timeoList.head? =
          p₁.earlier n p₁.timeoList.head? := by
        rw [h₁.rest]
        rfl
      rw [hfirst, hearlier]
      by_cases hp : p₁.treeFirst ≠ some n
      · rw [if_pos hp]
        exact ⟨p₁, by rw [Option.bind_eq_bind, Option.bind_some, if_pos hp], h₁⟩
      · rw [if_neg hp]
        exact ⟨p₁, by rw [Option.bind_eq_bind, Option.bind_some, if_neg hp], h₁⟩

theorem Shows.addNoTimeo (h : p.Shows q) (n : NodeId) : (p.addNoTimeo n).Shows (q.addNoTimeo n) := by
  obtain ⟨tree, rest⟩ := h
  generalize q.timeoTree = s at tree rest
  subst rest
  exact ⟨tree, rfl⟩

/-! ## Nodes that are due -/

/-- The first node taken off the tree, as `__poller_handle_timeout` does. -/
theorem Shows.dropFirst (h : p.Shows q) (ok : q.Ok) (hin : inorder q.timeoTree = n :: inorder (B.erase n q.timeoTree))
    (enough : 2 * Nat.log 2 (q.members.length + 1) < fuel) :
    ∃ root, p.timeoTree.rbNext fuel n = some (next q.timeoTree n) ∧ p.timeoTree.rbErase fuel n = some root ∧
      Shows { p with
        treeFirst := next q.timeoTree n
        treeLast := if (next q.timeoTree n).isSome then p.treeLast else none
        timeoTree := root }
      { q with
        treeFirst := next q.timeoTree n
        treeLast := if (next q.timeoTree n).isSome then q.treeLast else none
        timeoTree := B.erase n q.timeoTree } := by
  have hnext : next q.timeoTree n = (inorder (B.erase n q.timeoTree)).head? := next_inorder ok.tree_nodup
    (show _ = [] ++ _ from hin)
  obtain ⟨⟨t, H, rb, order⟩, rest⟩ := h
  generalize q.timeoTree = s at order rest hin hnext
  subst rest
  have hdepth := depth_lt rb order enough
  have hsplit : t.inorder = [] ++ n :: inorder (B.erase n s) := order.trans hin
  obtain ⟨h', t', herase, H', hrb, horder⟩ := RbRoot.erase_holds H rb hsplit hdepth
  refine ⟨h', ?_, herase, ⟨t', H', hrb, horder⟩, rfl⟩
  rw [hnext]
  exact (RbRoot.walk_holds H hsplit hdepth.le).1

/-- **The loop of `__poller_handle_timeout` over the tree** takes the same nodes. -/
theorem Shows.expireTree (h : p.Shows q) (ok : q.Ok) (time : Timespec) {k : Nat} (hk : (inorder q.timeoTree).length ≤ k)
    (enough : 2 * Nat.log 2 (q.members.length + 1) < fuel) {passes : Nat} (hpasses : k < passes) :
    ∃ p', p.expireTree fuel time passes = some ((q.expireTree B time k).1, p') ∧ p'.Shows (q.expireTree B time k).2 := by
  induction k generalizing p q passes with
  | zero =>
    obtain ⟨m, rfl⟩ : ∃ m, passes = m + 1 := ⟨passes - 1, by omega⟩
    have hnone : p.treeFirst = none := by
      have hfirst : p.treeFirst = q.treeFirst := congrArg TimeoQueue.treeFirst h.rest.symm
      rw [hfirst, ok.first, List.eq_nil_of_length_eq_zero (Nat.le_zero.1 hk)]
      rfl
    refine ⟨p, ?_, h⟩
    rw [TimeoRb.expireTree, hnone]
    rfl
  | succ k ih =>
    obtain ⟨m, rfl⟩ : ∃ m, passes = m + 1 := ⟨passes - 1, by omega⟩
    have hfirst : p.treeFirst = q.treeFirst := congrArg TimeoQueue.treeFirst h.rest.symm
    rw [TimeoRb.expireTree, TimeoQueue.expireTree, hfirst]
    cases hq : q.treeFirst with
    | none => exact ⟨p, rfl, h⟩
    | some n =>
      have htime : p.timeout n = q.timeout n := congrArg (TimeoQueue.timeout · n) h.rest.symm
      dsimp only
      rw [htime]
      by_cases hdue : timeoutCmp (q.timeout n) time < 0
      · rw [if_pos hdue, if_pos hdue]
        obtain ⟨ok', hin⟩ := TimeoQueue.dropFirst_ok (B := B) ok hq
        obtain ⟨root, hnext, herase, h'⟩ := h.dropFirst ok hin enough
        have hlength := congrArg List.length hin
        rw [List.length_cons] at hlength
        have henough :
            2 * Nat.log 2 ((q.timeoList ++ inorder (B.erase n q.timeoTree) ++ q.noTimeoList).length + 1) < fuel := by
          refine (Nat.mul_le_mul_left 2 (Nat.log_mono_right ?_)).trans_lt enough
          rw [TimeoQueue.members, TimeoQueue.timed]
          simp only [List.length_append]
          omega
        obtain ⟨p₁, hexpire, h₁⟩ := ih h' ok' (show (inorder (B.erase n q.timeoTree)).length ≤ k by omega) henough
          (by omega : k < m)
        refine ⟨p₁, ?_, h₁⟩
        rw [hnext, herase]
        dsimp only [Option.bind_eq_bind, Option.bind_some]
        rw [hexpire]
        rfl
      · rw [if_neg hdue, if_neg hdue]
        exact ⟨p, rfl, h⟩

theorem listDue_ok (ok : q.Ok) (due : NodeId → Bool) :
    TimeoQueue.Ok { q with timeoList := q.timeoList.dropWhile due } ∧
      (TimeoQueue.members { q with timeoList := q.timeoList.dropWhile due }).length ≤ q.members.length := by
  have hsub : (q.timeoList.dropWhile due).Sublist q.timeoList := (List.dropWhile_suffix due).sublist
  have hmembers : (q.timeoList.dropWhile due ++ inorder q.timeoTree ++ q.noTimeoList).Sublist q.members :=
    (hsub.append_right _).append_right _
  exact ⟨⟨ok.list.sublist hsub, ok.tree, ok.first, ok.last, ok.nodup.sublist hmembers, fun m hm =>
    ok.flag m (hmembers.subset hm)⟩, hmembers.length_le⟩

theorem Shows.listDue (h : p.Shows q) (due : NodeId → Bool) :
    Shows { p with timeoList := p.timeoList.dropWhile due } { q with timeoList := q.timeoList.dropWhile due } := by
  obtain ⟨tree, rest⟩ := h
  generalize q.timeoTree = s at tree rest
  subst rest
  exact ⟨tree, rfl⟩

/-- **`__poller_handle_timeout`** takes the same nodes, in the same order. -/
theorem Shows.expire (h : p.Shows q) (ok : q.Ok) (time : Timespec)
    (enough : 2 * Nat.log 2 (q.members.length + 1) < fuel) {passes : Nat} (hpasses : q.members.length < passes) :
    ∃ p', p.expire fuel passes time = some ((q.expire B time).1, p') ∧ p'.Shows (q.expire B time).2 := by
  have hlist : p.timeoList = q.timeoList := congrArg TimeoQueue.timeoList h.rest.symm
  have htime : p.timeout = q.timeout := congrArg TimeoQueue.timeout h.rest.symm
  unfold TimeoRb.expire TimeoQueue.expire
  rw [htime, hlist]
  dsimp only
  generalize (fun n => decide (timeoutCmp (q.timeout n) time ≤ 0)) = due
  have hlength : q.members.length = q.timeoList.length + (inorder q.timeoTree).length + q.noTimeoList.length := by
    rw [TimeoQueue.members, TimeoQueue.timed, List.length_append, List.length_append]
  obtain ⟨ok', hless⟩ := listDue_ok ok due
  obtain ⟨p', hexpire, h'⟩ := (h.listDue due).expireTree (B := B) ok' time (Nat.le_refl _)
    ((Nat.mul_le_mul_left 2 (Nat.log_mono_right (Nat.succ_le_succ hless))).trans_lt enough)
    (show (inorder q.timeoTree).length < passes by omega)
  refine ⟨p', ?_, h'⟩
  rw [hlist, htime] at hexpire
  rw [hexpire]
  rfl

/-! ## The end -/

/-- A tree is emptied root by root. -/
theorem drainTree_holds (H : RbHolds p.timeoTree [] t) (rb : t.IsRedBlack)
    (enough : 2 * Nat.log 2 (t.inorder.length + 1) < fuel) {passes : Nat} (hpasses : t.inorder.length < passes) :
    ∃ p', p.drainTree fuel passes = some p' ∧ p'.timeoList.Perm (t.inorder ++ p.timeoList) ∧
      p'.noTimeoList = p.noTimeoList := by
  induction passes generalizing p t with
  | zero => exact absurd hpasses (Nat.not_lt_zero _)
  | succ k ih =>
    have hroot : p.timeoTree.rbNode = t.root := H.way
    rw [drainTree, hroot]
    cases hr : t.root with
    | none =>
      rw [RbTree.root_eq_none] at hr
      subst hr
      exact ⟨p, rfl, .refl _, rfl⟩
    | some n =>
      obtain ⟨l₁, l₂, order⟩ := List.append_of_mem (RbTree.mem_of_root hr)
      obtain ⟨h', t', herase, H', hrb, horder⟩ := RbRoot.erase_holds H rb order
        (rb.depth_le_log.trans_lt enough)
      have hperm : t.inorder.Perm (n :: t'.inorder) := by
        rw [order, horder]
        exact List.perm_middle
      have hlength := hperm.length_eq
      rw [List.length_cons] at hlength
      have hless : 2 * Nat.log 2 (t'.inorder.length + 1) < fuel :=
        (Nat.mul_le_mul_left 2 (Nat.log_mono_right (by omega))).trans_lt enough
      obtain ⟨p', hdrain, hlist, hno⟩ := ih (p := { p with timeoTree := h', timeoList := n :: p.timeoList }) H' hrb
        hless (by omega)
      refine ⟨p', ?_, ?_, hno⟩
      · dsimp only
        rw [herase]
        exact hdrain
      · refine hlist.trans ?_
        exact List.perm_middle.trans (hperm.symm.append_right _)

/-- **`poller_stop`** calls back each node once. -/
theorem Shows.stop (h : p.Shows q) (enough : 2 * Nat.log 2 (q.members.length + 1) < fuel) {passes : Nat}
    (hpasses : q.members.length < passes) : ∃ nodes, p.stop fuel passes = some nodes ∧ nodes.Perm q.members := by
  obtain ⟨⟨t, H, rb, order⟩, rest⟩ := h
  have hmembers : q.members = p.timeoList ++ t.inorder ++ p.noTimeoList := by
    rw [order, rest]
    rfl
  have hlength : t.inorder.length ≤ q.members.length := by
    rw [hmembers, List.length_append, List.length_append]
    omega
  obtain ⟨p', hdrain, hlist, hno⟩ := drainTree_holds (p := { p with treeFirst := none, treeLast := none }) H rb
    ((Nat.mul_le_mul_left 2 (Nat.log_mono_right (Nat.succ_le_succ hlength))).trans_lt enough)
    (hlength.trans_lt hpasses)
  refine ⟨p'.noTimeoList ++ p'.timeoList, ?_, ?_⟩
  · unfold TimeoRb.stop
    rw [hdrain]
    rfl
  · rw [hno, hmembers]
    exact List.perm_append_comm.trans ((hlist.trans List.perm_append_comm).append_right _)

theorem Shows.setNode (h : p.Shows q) (n : NodeId) (time : Timespec) :
    (p.setNode n time).Shows
      { q with timeout := Function.update q.timeout n time, inRbtree := Function.update q.inRbtree n false } := by
  obtain ⟨tree, rest⟩ := h
  generalize q.timeoTree = s at tree rest
  subst rest
  exact ⟨tree, rfl⟩

end TimeoRb

/-! ## Runs -/

/-- What the poller does with its queue. -/
inductive TimeoOp where
  /-- A node that has a timeout. -/
  | insert (node : NodeId) (timeout : Timespec)
  /-- A node that has none. -/
  | addNoTimeo (node : NodeId) (timeout : Timespec)
  | unlink (node : NodeId)
  | expire (time : Timespec)

namespace TimeoOp

/-- In memory: if the timer is set, and the nodes that are due. -/
def run (fuel passes : Nat) : TimeoOp → TimeoRb → Option ((Bool × List NodeId) × TimeoRb)
  | insert n t, p => ((p.setNode n t).insertNode fuel n).map fun r => ((r.2, []), r.1)
  | addNoTimeo n t, p => some ((false, []), (p.setNode n t).addNoTimeo n)
  | unlink n, p => (p.unlink fuel n).map fun p => ((false, []), p)
  | expire time, p => (p.expire fuel passes time).map fun r => ((false, r.1), r.2)

/-- On the sequence. -/
def apply (B : Balance NodeId) : TimeoOp → TimeoQueue → (Bool × List NodeId) × TimeoQueue
  | insert n t, q =>
    let r := { q with
      timeout := Function.update q.timeout n t
      inRbtree := Function.update q.inRbtree n false }.insertNode B n
    ((r.2, []), r.1)
  | addNoTimeo n t, q => ((false, []), { q with
      timeout := Function.update q.timeout n t
      inRbtree := Function.update q.inRbtree n false }.addNoTimeo n)
  | unlink n, q => ((false, []), q.unlink B n)
  | expire time, q => ((false, (q.expire B time).1), (q.expire B time).2)

/-- A node stands in one place at most. -/
def Valid : TimeoOp → TimeoQueue → Prop
  | insert n _, q => n ∉ q.members
  | addNoTimeo n _, q => n ∉ q.members
  | unlink n, q => n ∈ q.members
  | expire _, _ => True

instance (op : TimeoOp) (q : TimeoQueue) : Decidable (op.Valid q) := match op with
  | insert n _ => inferInstanceAs (Decidable (n ∉ q.members))
  | addNoTimeo n _ => inferInstanceAs (Decidable (n ∉ q.members))
  | unlink n => inferInstanceAs (Decidable (n ∈ q.members))
  | expire _ => inferInstanceAs (Decidable True)

def runAll (fuel passes : Nat) : List TimeoOp → TimeoRb → Option (List (Bool × List NodeId) × TimeoRb)
  | [], p => some ([], p)
  | op :: ops, p => do
    let (out, p) ← op.run fuel passes p
    let (outs, p) ← runAll fuel passes ops p
    some (out :: outs, p)

def applyAll (B : Balance NodeId) : List TimeoOp → TimeoQueue → List (Bool × List NodeId) × TimeoQueue
  | [], q => ([], q)
  | op :: ops, q =>
    let r := op.apply B q
    let s := applyAll B ops r.2
    (r.1 :: s.1, s.2)

def AllValid (B : Balance NodeId) : List TimeoOp → TimeoQueue → Prop
  | [], _ => True
  | op :: ops, q => op.Valid q ∧ AllValid B ops (op.apply B q).2

instance decidableAllValid (B : Balance NodeId) : (ops : List TimeoOp) → (q : TimeoQueue) →
    Decidable (AllValid B ops q)
  | [], _ => inferInstanceAs (Decidable True)
  | op :: ops, q =>
    have := decidableAllValid B ops (op.apply B q).2
    inferInstanceAs (Decidable (op.Valid q ∧ AllValid B ops (op.apply B q).2))

end TimeoOp

namespace TimeoRb

variable {B : Balance NodeId} {p : TimeoRb} {q : TimeoQueue} {fuel passes : Nat}

theorem length_le_succ {q' : TimeoQueue} {n : NodeId} (ok : q'.Ok) (h : ∀ m ∈ q'.members, m = n ∨ m ∈ q.members) :
    q'.members.length ≤ q.members.length + 1 :=
  (List.subperm_of_subset ok.nodup fun m hm => List.mem_cons.2 (h m hm)).length_le

/-- One operation on both. -/
theorem Shows.op (h : p.Shows q) (ok : q.Ok) (op : TimeoOp) (valid : op.Valid q)
    (enough : 2 * Nat.log 2 (q.members.length + 1) < fuel) (hpasses : q.members.length < passes) :
    ∃ p', op.run fuel passes p = some ((op.apply B q).1, p') ∧ p'.Shows (op.apply B q).2 ∧ (op.apply B q).2.Ok ∧
      (op.apply B q).2.members.length ≤ q.members.length + 1 := by
  cases op with
  | insert n t =>
    have ok' := TimeoQueue.setNode_ok ok valid t false
    obtain ⟨p', hinsert, h'⟩ := (h.setNode n t).insertNode (B := B) ok' valid enough
    obtain ⟨hok, hmem, -⟩ := TimeoQueue.insertNode_ok (B := B) ok' valid (Function.update_self ..)
    refine ⟨p', ?_, h', hok, length_le_succ hok fun m hm => (hmem m).1 hm⟩
    rw [TimeoOp.run, hinsert]
    rfl
  | addNoTimeo n t =>
    have ok' := TimeoQueue.setNode_ok ok valid t false
    obtain ⟨hok, hmem⟩ := TimeoQueue.addNoTimeo_ok ok' valid (Function.update_self ..)
    exact ⟨_, rfl, (h.setNode n t).addNoTimeo n, hok, length_le_succ hok fun m hm => (hmem m).1 hm⟩
  | unlink n =>
    obtain ⟨p', hunlink, h'⟩ := h.unlink (B := B) ok valid enough
    obtain ⟨hok, hmem, -⟩ := TimeoQueue.unlink_ok (B := B) ok valid
    refine ⟨p', ?_, h', hok, length_le_succ (n := n) hok fun m hm => .inr ((hmem m).1 hm).1⟩
    rw [TimeoOp.run, hunlink]
    rfl
  | expire time =>
    obtain ⟨p', hexpire, h'⟩ := h.expire (B := B) ok time enough hpasses
    obtain ⟨hok, hperm, -⟩ := TimeoQueue.expire_ok (B := B) time ok
    have hlength := hperm.length_eq
    rw [List.length_append] at hlength
    refine ⟨p', ?_, h', hok, ?_⟩
    · rw [TimeoOp.run, hexpire]
      rfl
    · show (q.expire B time).2.members.length ≤ _
      omega

/-- From a queue on. -/
theorem Shows.runAll {ops : List TimeoOp} (h : p.Shows q) (ok : q.Ok) (valid : TimeoOp.AllValid B ops q)
    (enough : 2 * Nat.log 2 (q.members.length + ops.length + 1) < fuel)
    (hpasses : q.members.length + ops.length < passes) :
    ∃ p', TimeoOp.runAll fuel passes ops p = some ((TimeoOp.applyAll B ops q).1, p') ∧
      p'.Shows (TimeoOp.applyAll B ops q).2 ∧
      ∃ nodes, p'.stop fuel passes = some nodes ∧ nodes.Nodup ∧
        nodes.Perm (TimeoOp.applyAll B ops q).2.members := by
  induction ops generalizing p q with
  | nil =>
    obtain ⟨nodes, hstop, hperm⟩ := h.stop enough hpasses
    exact ⟨p, rfl, h, nodes, hstop, hperm.nodup_iff.2 ok.nodup, hperm⟩
  | cons op ops ih =>
    have hless : ∀ {n m : Nat}, n ≤ m → 2 * Nat.log 2 (m + 1) < fuel → 2 * Nat.log 2 (n + 1) < fuel := fun hn hm =>
      (Nat.mul_le_mul_left 2 (Nat.log_mono_right (Nat.succ_le_succ hn))).trans_lt hm
    obtain ⟨p₁, hrun, h₁, ok₁, hlength⟩ := h.op ok op valid.1 (hless (Nat.le_add_right _ _) enough)
      (Nat.lt_of_le_of_lt (Nat.le_add_right _ _) hpasses)
    rw [List.length_cons] at enough hpasses
    obtain ⟨p₂, hall, h₂⟩ := ih h₁ ok₁ valid.2 (hless (by omega) enough) (by omega)
    refine ⟨p₂, ?_, h₂⟩
    rw [TimeoOp.runAll, hrun]
    dsimp only [Option.bind_eq_bind, Option.bind_some]
    rw [hall]
    rfl

theorem start_shows (timeout : NodeId → Timespec) (inRbtree : NodeId → Bool) (node : NodeId → RbNode NodeId) :
    (start timeout inRbtree node).Shows ((start timeout inRbtree node).view .nil) :=
  ⟨⟨.nil, ⟨trivial, rfl, List.nodup_nil⟩, ⟨rfl, 0, rfl⟩, rfl⟩, rfl⟩

theorem start_ok (timeout : NodeId → Timespec) (inRbtree : NodeId → Bool) (node : NodeId → RbNode NodeId) :
    ((start timeout inRbtree node).view .nil).Ok :=
  ⟨.nil, .nil, rfl, rfl, List.nodup_nil, List.forall_mem_nil _⟩

end TimeoRb

/-- **The poller's timers, in a tree of `rbtree.c`.**  Whatever is done with them, the queue is the one that has the tree
as a sequence: the timer is set at the same calls and the same nodes are taken in the same order, within as many passes
as there are nodes and twice the logarithm of that down the tree, and when the poller stops it calls back each node that
is left once. -/
theorem timeo_rb_refines (B : Balance NodeId) (ops : List TimeoOp) (timeout : NodeId → Timespec)
    (inRbtree : NodeId → Bool) (node : NodeId → RbNode NodeId)
    (valid : TimeoOp.AllValid B ops ((TimeoRb.start timeout inRbtree node).view .nil)) {fuel passes : Nat}
    (enough : 2 * Nat.log 2 (ops.length + 1) < fuel) (hpasses : ops.length < passes) :
    ∃ p, TimeoOp.runAll fuel passes ops (TimeoRb.start timeout inRbtree node) =
        some ((TimeoOp.applyAll B ops ((TimeoRb.start timeout inRbtree node).view .nil)).1, p) ∧
      p.Shows (TimeoOp.applyAll B ops ((TimeoRb.start timeout inRbtree node).view .nil)).2 ∧
      ∃ nodes, p.stop fuel passes = some nodes ∧ nodes.Nodup ∧
        nodes.Perm (TimeoOp.applyAll B ops ((TimeoRb.start timeout inRbtree node).view .nil)).2.members := by
  refine TimeoRb.Shows.runAll (TimeoRb.start_shows timeout inRbtree node) (TimeoRb.start_ok timeout inRbtree node) valid
    ?_ ?_
  · show 2 * Nat.log 2 (0 + ops.length + 1) < fuel
    rwa [Nat.zero_add]
  · show 0 + ops.length < passes
    rwa [Nat.zero_add]

/-- Four nodes, of which three go through the tree, and two are due. -/
theorem timeo_rb_refines_run :
    let time : Nat → Timespec := fun s => ⟨s, 0, by decide⟩
    let p := TimeoRb.start (fun _ => time 0) (fun _ => false) fun _ => ⟨none, none, none, .red⟩
    let ops : List TimeoOp := [.insert 1 (time 50), .insert 2 (time 40), .insert 3 (time 30), .insert 4 (time 35),
      .addNoTimeo 5 (time 0), .unlink 2, .expire (time 36)]
    ∃ p', TimeoOp.runAll 20 20 ops p = some ((TimeoOp.applyAll (unbalanced NodeId) ops (p.view .nil)).1, p') ∧
      p'.Shows (TimeoOp.applyAll (unbalanced NodeId) ops (p.view .nil)).2 ∧
      ∃ nodes, p'.stop 20 20 = some nodes ∧ nodes.Nodup ∧
        nodes.Perm (TimeoOp.applyAll (unbalanced NodeId) ops (p.view .nil)).2.members := by
  intro time p ops
  have hlog : 2 * Nat.log 2 8 < 20 := by
    have := Nat.log_le_self 2 8
    omega
  exact timeo_rb_refines (unbalanced NodeId) ops _ _ _ (by decide) hlog (by decide)

end Tinywf
