import Tinywf.RbtreeInsert
import Tinywf.RbtreeErase
import Mathlib.Data.List.Sort
/-!
# RbtreeOrder — red-black trees in memory as ordered lists

What a program does with a tree of nodes in the order of their keys: it searches a place and hangs a node in
(`rbInsert`), takes one out, replaces one, and walks from node to node.  The nodes are those of a list in that order, and
the tree is red-black (`rbtree_refines`).
-/
namespace Tinywf

open RedBlack RbTree

variable {α : Type*} [DecidableEq α]

namespace RbRoot

/-- Up as long as there is a parent that has `node` on the side `d`. -/
def climb (d : Side) : Nat → α → RbRoot α → Option (Option α)
  | 0, _, _ => none
  | n + 1, node, h => match h.parent node with
    | some parent => if h.child d parent = some node then climb d n parent h else some (some parent)
    | none => some none

/-- `rb_next`, and `rb_prev` in the mirror. -/
def neighbour (d : Side) (fuel : Nat) (node : α) (h : RbRoot α) : Option (Option α) := match h.child d node with
  | some child => (h.farthest d.other fuel child).map some
  | none => h.climb d fuel node

/-- `rb_next`. -/
def rbNext (fuel : Nat) (node : α) (h : RbRoot α) : Option (Option α) := h.neighbour .right fuel node

/-- `rb_prev`. -/
def rbPrev (fuel : Nat) (node : α) (h : RbRoot α) : Option (Option α) := h.neighbour .left fuel node

/-- `rb_first`, and `rb_last` in the mirror. -/
def outermost (d : Side) (fuel : Nat) (h : RbRoot α) : Option (Option α) := match h.rbNode with
  | some n => (h.farthest d fuel n).map some
  | none => some none

/-- `rb_first`. -/
def rbFirst (fuel : Nat) (h : RbRoot α) : Option (Option α) := h.outermost .left fuel

/-- `rb_last`. -/
def rbLast (fuel : Nat) (h : RbRoot α) : Option (Option α) := h.outermost .right fuel

/-- `*link`. -/
def linked (link : Option (α × Side)) (h : RbRoot α) : Option α := match link with
  | some (p, d) => h.child d p
  | none => h.rbNode

/-- The search for an empty place, `left` saying where a node goes on the left. -/
def rbSearch (left : α → Bool) : Nat → Option (α × Side) → RbRoot α → Option (Option (α × Side))
  | 0, _, _ => none
  | n + 1, link, h => match h.linked link with
    | some parent => rbSearch left n (some (parent, if left parent then .left else .right)) h
    | none => some link

/-- A node is searched a place for, and hung in. -/
def rbInsert (left : α → Bool) (fuel : Nat) (node : α) (h : RbRoot α) : Option (RbRoot α) := do
  let link ← h.rbSearch left fuel none
  (h.rbLinkNode node link).rbInsertColor fuel node

variable {h : RbRoot α} {up : List (Frame α)} {d : Side} {c : Color} {x : α} {l r s t : RbTree α} {fuel : Nat}

/-! ## Walks -/

omit [DecidableEq α] in
theorem farthest_left (H : RbHolds h up t) (root : t.root = some x) (enough : t.depth ≤ fuel) :
    ∃ y, h.farthest .left fuel x = some y ∧ t.inorder.head? = some y := by
  obtain ⟨path, c, y, s, rfl, hpath, hfar⟩ := farthest_holds (d := .left) H root enough
  have horder : (plug path (join .left c y .nil s)).inorder = y :: (plug path s).inorder :=
    inorder_leftmost hpath c y s
  exact ⟨y, hfar, by rw [horder]; rfl⟩

omit [DecidableEq α] in
theorem farthest_right (H : RbHolds h up t) (root : t.root = some x) (enough : t.depth ≤ fuel) :
    ∃ y, h.farthest .right fuel x = some y ∧ t.inorder.getLast? = some y := by
  obtain ⟨path, c, y, s, rfl, hpath, hfar⟩ := farthest_holds (d := .right) H root enough
  have horder : (plug path (join .right c y .nil s)).inorder = (plug path s).inorder ++ [y] :=
    inorder_rightmost hpath c y s
  exact ⟨y, hfar, by rw [horder, List.getLast?_concat]⟩

omit [DecidableEq α] in
/-- **`rb_first` and `rb_last`** come to the two ends. -/
theorem outermost_holds (H : RbHolds h [] t) (enough : t.depth ≤ fuel) :
    h.rbFirst fuel = some t.inorder.head? ∧ h.rbLast fuel = some t.inorder.getLast? := by
  have hroot : h.rbNode = t.root := H.way
  unfold rbFirst rbLast outermost
  rw [hroot]
  cases ht : t.root with
  | none =>
    rw [root_eq_none] at ht
    subst ht
    exact ⟨rfl, rfl⟩
  | some a =>
    obtain ⟨y, hfirst, hhead⟩ := farthest_left H ht enough
    obtain ⟨z, hlast, hend⟩ := farthest_right H ht enough
    dsimp only
    rw [hfirst, hlast, hhead, hend]
    exact ⟨rfl, rfl⟩

theorem climb_holds (H : RbHolds h up t) (root : t.root = some x) (enough : up.length < fuel) :
    h.climb d fuel x = some (nearest d up) := by
  induction fuel generalizing up t x with
  | zero => exact absurd enough (Nat.not_lt_zero _)
  | succ fuel ih =>
    obtain ⟨c, a, s, o, rfl⟩ := eq_join d (t := t) (by rintro rfl; cases root)
    rw [root_join] at root
    cases root
    rw [climb, H.parent_eq]
    cases up with
    | nil => rfl
    | cons f up =>
      obtain ⟨e, c', p, u⟩ := f
      have HP := RbHolds.down.2 H
      show (if h.child d p = some x then h.climb d fuel p else some (some p)) = _
      rcases d.eq_or_other e with rfl | rfl
      · rw [HP.child_eq, root_join, if_pos rfl, ih HP (root_join ..) (by rw [List.length_cons] at enough; omega), nearest,
          if_neg (Side.other_ne e).symm]
      · have hchild : h.child d p = u.root := by
          have := HP.child_other_eq
          rwa [Side.other_other] at this
        have hne : u.root ≠ some x := fun hu =>
          (nodup_join.1 HP.nodup).2.2.1 (mem_of_root (root_join ..)) (mem_of_root hu)
        rw [hchild, if_neg hne, nearest, if_pos rfl]

/-- **`rb_next` and `rb_prev`** come to the node behind, and to the one before. -/
theorem neighbour_holds (H : RbHolds h up (.node c x l r)) (enough : (plug up (.node c x l r)).depth ≤ fuel) :
    h.rbNext fuel x = some (r.inorder ++ after up).head? ∧ h.rbPrev fuel x = some (before up ++ l.inorder).getLast? := by
  have hdepth := length_le_depth up (.node c x l r)
  rw [depth] at hdepth
  have hup : up.length < fuel := by omega
  unfold rbNext rbPrev neighbour
  constructor
  · have hchild : h.child .right x = r.root := RbHolds.child_eq (d := .right) H
    rw [hchild]
    cases hr : r.root with
    | none =>
      rw [root_eq_none] at hr
      subst hr
      rw [inorder_nil, List.nil_append, ← nearest_right]
      exact climb_holds H rfl hup
    | some a =>
      have HR : RbHolds h (⟨.right, c, x, l⟩ :: up) r := RbHolds.down (d := .right).1 H
      obtain ⟨y, hfar, hhead⟩ := farthest_left HR hr (by omega : r.depth ≤ fuel)
      show Option.map some (h.farthest .left fuel a) = _
      rw [hfar, List.head?_append, hhead]
      rfl
  · have hchild : h.child .left x = l.root := RbHolds.child_eq (d := .left) H
    rw [hchild]
    cases hl : l.root with
    | none =>
      rw [root_eq_none] at hl
      subst hl
      rw [inorder_nil, List.append_nil, ← nearest_left]
      exact climb_holds H rfl hup
    | some a =>
      have HL : RbHolds h (⟨.left, c, x, r⟩ :: up) l := RbHolds.down (d := .left).1 H
      obtain ⟨y, hfar, hend⟩ := farthest_right HL hl (by omega : l.depth ≤ fuel)
      show Option.map some (h.farthest .right fuel a) = _
      rw [hfar, List.getLast?_append, hend]
      rfl

/-! ## Single operations -/

omit [DecidableEq α] in
theorem linked_eq (H : RbHolds h up t) : h.linked (linkOf up) = t.root := by
  cases up with
  | nil => exact H.way
  | cons f up => exact (RbHolds.down.2 H).child_eq

/-- The side that a place is on. -/
def sideOf (left : Bool) : Side := if left then .left else .right

omit [DecidableEq α] in
/-- **A search ends in an empty place**, that of a value hung in. -/
theorem rbSearch_holds (H : RbHolds h up t) (x : α) (left : α → Bool) (enough : t.depth < fuel) :
    ∃ path, t = plug path .nil ∧ h.rbSearch left fuel (linkOf up) = some (linkOf (path ++ up)) ∧
      (plug path (.node .red x .nil .nil)).bare = InorderTree.hang x left t.bare ∧
      linkOf path = (InorderTree.place left t.bare).map fun p => (p.1, sideOf p.2) := by
  induction t generalizing up fuel with
  | nil =>
    obtain ⟨n, rfl⟩ : ∃ n, fuel = n + 1 := ⟨fuel - 1, by omega⟩
    refine ⟨[], rfl, ?_, rfl, rfl⟩
    rw [rbSearch, linked_eq H]
    rfl
  | node c b l r ihl ihr =>
    obtain ⟨n, rfl⟩ : ∃ n, fuel = n + 1 := ⟨fuel - 1, by omega⟩
    rw [depth] at enough
    rw [rbSearch, linked_eq H, RbTree.root, bare, InorderTree.hang, InorderTree.place]
    dsimp only
    cases left b with
    | true =>
      obtain ⟨path, hpath, hsearch, hhang, hlink⟩ := ihl (RbHolds.down (d := .left).1 H) (by omega : l.depth < n)
      refine ⟨path ++ [⟨.left, c, b, r⟩], ?_, ?_, ?_, ?_⟩
      · rw [plug_append, ← hpath]
        rfl
      · rw [List.append_assoc]
        exact hsearch
      · rw [if_pos rfl, plug_append, ← hhang]
        rfl
      · rw [if_pos rfl, linkOf_append, hlink, Option.map_or]
        rfl
    | false =>
      obtain ⟨path, hpath, hsearch, hhang, hlink⟩ := ihr (RbHolds.down (d := .right).1 H) (by omega : r.depth < n)
      refine ⟨path ++ [⟨.right, c, b, l⟩], ?_, ?_, ?_, ?_⟩
      · rw [plug_append, ← hpath]
        rfl
      · rw [List.append_assoc]
        exact hsearch
      · rw [if_neg Bool.false_ne_true, plug_append, ← hhang]
        rfl
      · rw [if_neg Bool.false_ne_true, linkOf_append, hlink, Option.map_or]
        rfl

/-- **A node linked at a place and `rb_insert_color`.** -/
theorem link_holds (H : RbHolds h up .nil) (rb : (plug up .nil).IsRedBlack) (fresh : x ∉ (plug up .nil).inorder)
    (enough : up.length < fuel) :
    ∃ h' t', (h.rbLinkNode x (linkOf up)).rbInsertColor fuel x = some h' ∧ RbHolds h' [] t' ∧ t'.IsRedBlack ∧
      t'.inorder = (plug up (.node .red x .nil .nil)).inorder := by
  have hfresh : x ∉ outer up := fun hx => fresh ((perm_plug up .nil).mem_iff.2 hx)
  obtain ⟨h', t', hinsert, H', hrb, order⟩ := rbInsertColor_holds (H.rbLinkNode hfresh) rb enough
  refine ⟨h', t', hinsert, H', hrb, ?_⟩
  rw [order, inorder_plug, inorder_node, inorder_nil, List.nil_append, List.append_assoc]
  rfl

theorem rbInsert_holds (H : RbHolds h [] t) (rb : t.IsRedBlack) (fresh : x ∉ t.inorder) (left : α → Bool)
    (enough : t.depth < fuel) :
    ∃ h' t', h.rbInsert left fuel x = some h' ∧ RbHolds h' [] t' ∧ t'.IsRedBlack ∧
      t'.inorder = InorderTree.inorder (InorderTree.hang x left t.bare) := by
  obtain ⟨path, rfl, hsearch, hhang, -⟩ := rbSearch_holds H x left enough
  rw [List.append_nil] at hsearch
  have hlength := length_le_depth path .nil
  have HP : RbHolds h path .nil := by
    have := RbHolds.downPath.1 H
    rwa [List.append_nil] at this
  obtain ⟨h', t', hinsert, H', hrb, order⟩ := link_holds HP rb fresh (by omega : path.length < fuel)
  refine ⟨h', t', ?_, H', hrb, ?_⟩
  · unfold rbInsert
    rw [show (none : Option (α × Side)) = linkOf [] from rfl, hsearch]
    exact hinsert
  · rw [order, ← hhang]
    rfl

omit [DecidableEq α] in
/-- The place of a node, in memory. -/
theorem exists_holds (H : RbHolds h [] t) {l₁ l₂ : List α} (order : t.inorder = l₁ ++ x :: l₂) :
    ∃ up c l r, t = plug up (.node c x l r) ∧ RbHolds h up (.node c x l r) ∧ l₁ = before up ++ l.inorder ∧
      l₂ = r.inorder ++ after up := by
  obtain ⟨up, c, l, r, rfl⟩ := exists_place (t := t) (a := x) (by rw [order]; simp)
  have HP : RbHolds h up (.node c x l r) := by
    have := RbHolds.downPath.1 H
    rwa [List.append_nil] at this
  have hnodup := (List.nodup_append.1 H.nodup).1
  have horder : (plug up (.node c x l r)).inorder = (before up ++ l.inorder) ++ x :: (r.inorder ++ after up) := by
    rw [inorder_plug, inorder_node]
    simp
  obtain ⟨h₁, h₂⟩ := InorderTree.split_unique (order ▸ hnodup) (order.symm.trans horder)
  exact ⟨up, c, l, r, rfl, HP, h₁, h₂⟩

/-- **Where `rb_next` and `rb_prev` go.** -/
theorem walk_holds (H : RbHolds h [] t) {l₁ l₂ : List α} (order : t.inorder = l₁ ++ x :: l₂) (enough : t.depth ≤ fuel) :
    h.rbNext fuel x = some l₂.head? ∧ h.rbPrev fuel x = some l₁.getLast? := by
  obtain ⟨up, c, l, r, rfl, HP, rfl, rfl⟩ := exists_holds H order
  exact neighbour_holds HP enough

theorem erase_holds (H : RbHolds h [] t) (rb : t.IsRedBlack) {l₁ l₂ : List α} (order : t.inorder = l₁ ++ x :: l₂)
    (enough : t.depth < fuel) :
    ∃ h' t', h.rbErase fuel x = some h' ∧ RbHolds h' [] t' ∧ t'.IsRedBlack ∧ t'.inorder = l₁ ++ l₂ := by
  obtain ⟨up, c, l, r, rfl, HP, rfl, rfl⟩ := exists_holds H order
  obtain ⟨h', t', herase, H', hrb, order'⟩ := rbErase_holds HP rb enough
  refine ⟨h', t', herase, H', hrb, ?_⟩
  rw [order']
  simp

theorem replace_holds (H : RbHolds h [] t) (rb : t.IsRedBlack) {l₁ l₂ : List α} (order : t.inorder = l₁ ++ x :: l₂)
    {y : α} (fresh : y ∉ l₁ ++ l₂) :
    ∃ t', RbHolds (h.rbReplaceNode x y) [] t' ∧ t'.IsRedBlack ∧ t'.inorder = l₁ ++ y :: l₂ := by
  obtain ⟨up, c, l, r, rfl, HP, rfl, rfl⟩ := exists_holds H order
  have hfresh : y ∉ l.inorder ++ r.inorder ++ outer up := by
    simp only [List.mem_append, mem_outer, not_or] at fresh ⊢
    tauto
  refine ⟨_, (HP.rbReplaceNode hfresh).top, ?_, ?_⟩
  · obtain ⟨n, hup, hn, hfits⟩ := redBlack_plug.1 rb
    refine redBlack_plug.2 ⟨n, hup, ?_, hfits⟩
    cases c <;> exact hn
  · rw [inorder_plug, inorder_node]
    simp

end RbRoot

/-! ## A list in order -/

/-- What is done with a tree. -/
inductive RbOp (α : Type*) where
  | insert (node : α)
  | erase (node : α)
  | replace (victim newnode : α)

variable {κ : Type*} [LinearOrder κ]

namespace RbOp

/-- On the tree: a node goes behind all whose keys are not greater. -/
def run (key : α → κ) (fuel : Nat) : RbOp α → RbRoot α → Option (RbRoot α)
  | insert x, h => h.rbInsert (fun a => key x < key a) fuel x
  | erase x, h => h.rbErase fuel x
  | replace x y, h => some (h.rbReplaceNode x y)

/-- On the list. -/
def apply (key : α → κ) : RbOp α → List α → List α
  | insert x, l => l.orderedInsert (fun a b => key a < key b) x
  | erase x, l => l.erase x
  | replace x y, l => l.replace x y

/-- A node is not in the tree twice, and what takes the place of another has its key. -/
def Valid (key : α → κ) : RbOp α → List α → Prop
  | insert x, l => x ∉ l
  | erase x, l => x ∈ l
  | replace x y, l => x ∈ l ∧ y ∉ l ∧ key y = key x

instance (key : α → κ) (op : RbOp α) (l : List α) : Decidable (op.Valid key l) := match op with
  | insert x => inferInstanceAs (Decidable (x ∉ l))
  | erase x => inferInstanceAs (Decidable (x ∈ l))
  | replace x y => inferInstanceAs (Decidable (x ∈ l ∧ y ∉ l ∧ key y = key x))

/-- Each of the operations is valid when it is done. -/
def AllValid (key : α → κ) : List (RbOp α) → List α → Prop
  | [], _ => True
  | op :: ops, l => op.Valid key l ∧ AllValid key ops (op.apply key l)

instance decidableAllValid (key : α → κ) : (ops : List (RbOp α)) → (l : List α) → Decidable (AllValid key ops l)
  | [], _ => inferInstanceAs (Decidable True)
  | op :: ops, l =>
    have := decidableAllValid key ops (op.apply key l)
    inferInstanceAs (Decidable (op.Valid key l ∧ AllValid key ops (op.apply key l)))

end RbOp

/-- **The tree in memory is red-black, and the list in its order.** -/
structure RbRefines (key : α → κ) (fuel : Nat) (h : RbRoot α) (l : List α) : Prop where
  tree : ∃ t, RbHolds h [] t ∧ t.IsRedBlack ∧ t.inorder = l
  sorted : l.Pairwise fun a b => key a ≤ key b
  first : h.rbFirst fuel = some l.head?
  last : h.rbLast fuel = some l.getLast?
  walk : ∀ l₁ a l₂, l = l₁ ++ a :: l₂ → h.rbNext fuel a = some l₂.head? ∧ h.rbPrev fuel a = some l₁.getLast?

variable {key : α → κ} {h : RbRoot α} {t : RbTree α} {l l₁ l₂ : List α} {x y : α} {fuel : Nat}

omit [DecidableEq α] in
theorem orderedInsert_of_split (h₁ : ∀ a ∈ l₁, key a ≤ key x) (h₂ : ∀ a ∈ l₂, key x < key a) :
    (l₁ ++ l₂).orderedInsert (fun a b => key a < key b) x = l₁ ++ x :: l₂ := by
  rw [List.orderedInsert_eq_take_drop, List.takeWhile_append_of_pos, List.dropWhile_append_of_pos]
  · cases l₂ with
    | nil => simp
    | cons b l₂ => simp [h₂ b List.mem_cons_self]
  all_goals
    intro a ha
    simpa using h₁ a ha

namespace RbRefines

theorem of_holds (H : RbHolds h [] t) (rb : t.IsRedBlack) (sorted : t.inorder.Pairwise fun a b => key a ≤ key b)
    (enough : t.depth ≤ fuel) : RbRefines key fuel h t.inorder where
  tree := ⟨t, H, rb, rfl⟩
  sorted := sorted
  first := (RbRoot.outermost_holds H enough).1
  last := (RbRoot.outermost_holds H enough).2
  walk _ _ _ order := RbRoot.walk_holds H order enough

end RbRefines

/-- One operation on both. -/
theorem RbOp.refines (op : RbOp α) (H : RbHolds h [] t) (rb : t.IsRedBlack)
    (sorted : t.inorder.Pairwise fun a b => key a ≤ key b) (valid : op.Valid key t.inorder) (enough : t.depth < fuel) :
    ∃ h' t', op.run key fuel h = some h' ∧ RbHolds h' [] t' ∧ t'.IsRedBlack ∧ t'.inorder = op.apply key t.inorder ∧
      t'.inorder.Pairwise fun a b => key a ≤ key b := by
  cases op with
  | insert x =>
    obtain ⟨h', t', hrun, H', hrb, order⟩ := RbRoot.rbInsert_holds H rb valid (fun a => key x < key a) enough
    obtain ⟨l₁, l₂, hin, hhang, h₁, h₂, -⟩ := InorderTree.inorder_hang x (fun a => decide (key x < key a)) t.bare
      (sorted.imp fun {a b} hab ha => by
        rw [decide_eq_true_iff] at ha ⊢
        exact lt_of_lt_of_le ha hab)
    have h₁ : ∀ a ∈ l₁, key a ≤ key x := fun a ha => by simpa using h₁ a ha
    have h₂ : ∀ a ∈ l₂, key x < key a := fun a ha => by simpa using h₂ a ha
    have hin : t.inorder = l₁ ++ l₂ := hin
    rw [hin] at sorted
    refine ⟨h', t', hrun, H', hrb, ?_, ?_⟩
    · rw [order, hhang, hin]
      exact (orderedInsert_of_split h₁ h₂).symm
    · rw [order, hhang]
      exact InorderTree.pairwise_insert sorted h₁ fun a ha => le_of_lt (h₂ a ha)
  | erase x =>
    obtain ⟨l₁, l₂, order⟩ := List.append_of_mem (show x ∈ t.inorder from valid)
    obtain ⟨h', t', hrun, H', hrb, order'⟩ := RbRoot.erase_holds H rb order enough
    have hnodup := (List.nodup_append.1 H.nodup).1
    refine ⟨h', t', hrun, H', hrb, ?_, ?_⟩
    · have hx : x ∉ l₁ := by
        rw [order, List.nodup_append] at hnodup
        exact fun hx => hnodup.2.2 x hx x List.mem_cons_self rfl
      rw [order', order, RbOp.apply, List.erase_append_right _ hx, List.erase_cons_head]
    · rw [order']
      rw [order] at sorted
      exact sorted.sublist ((List.sublist_cons_self x l₂).append_left l₁)
  | replace x y =>
    obtain ⟨hx, hy, hkey⟩ := valid
    obtain ⟨l₁, l₂, order⟩ := List.append_of_mem hx
    have hy' : y ∉ l₁ ++ l₂ := fun hmem => hy (by
      rw [order]
      exact ((List.sublist_cons_self x l₂).append_left l₁).subset hmem)
    obtain ⟨t', H', hrb, order'⟩ := RbRoot.replace_holds H rb order hy'
    have hnodup := (List.nodup_append.1 H.nodup).1
    refine ⟨_, t', rfl, H', hrb, ?_, ?_⟩
    · have hx : x ∉ l₁ := by
        rw [order, List.nodup_append] at hnodup
        exact fun hx => hnodup.2.2 x hx x List.mem_cons_self rfl
      rw [order', order, RbOp.apply, List.replace_append_right hx, List.replace_cons_self]
    · rw [order']
      rw [order, List.pairwise_append, List.pairwise_cons] at sorted
      obtain ⟨hs₁, ⟨hsx, hs₂⟩, hs⟩ := sorted
      refine InorderTree.pairwise_insert
        (List.pairwise_append.2 ⟨hs₁, hs₂, fun a ha b hb => hs a ha b (List.mem_cons_of_mem _ hb)⟩) ?_ ?_
      · rw [hkey]
        exact fun a ha => hs a ha x List.mem_cons_self
      · rw [hkey]
        exact hsx

theorem RbOp.length_apply_le (op : RbOp α) (key : α → κ) (l : List α) : (op.apply key l).length ≤ l.length + 1 := by
  cases op with
  | insert x => exact (List.orderedInsert_length _ l x).le
  | erase x => exact (List.length_erase_le).trans (Nat.le_succ _)
  | replace x y => exact (List.length_replace).le.trans (Nat.le_succ _)

/-- From a tree on. -/
theorem RbRefines.run {ops : List (RbOp α)} (H : RbHolds h [] t) (rb : t.IsRedBlack)
    (sorted : t.inorder.Pairwise fun a b => key a ≤ key b) (valid : RbOp.AllValid key ops t.inorder)
    (enough : 2 * Nat.log 2 (t.inorder.length + ops.length + 1) < fuel) :
    ∃ h', ops.foldlM (fun h op => op.run key fuel h) h = some h' ∧
      RbRefines key fuel h' (ops.foldl (fun l op => op.apply key l) t.inorder) := by
  have hdepth : ∀ {s : RbTree α} {n : Nat}, s.IsRedBlack → s.inorder.length ≤ n → s.depth ≤ 2 * Nat.log 2 (n + 1) :=
    fun hs hn => hs.depth_le_log.trans (Nat.mul_le_mul_left 2 (Nat.log_mono_right (Nat.succ_le_succ hn)))
  have hlt : t.depth < fuel := (hdepth rb (Nat.le_add_right _ _)).trans_lt enough
  induction ops generalizing h t with
  | nil => exact ⟨h, rfl, .of_holds H rb sorted hlt.le⟩
  | cons op ops ih =>
    obtain ⟨h₁, t₁, hrun, H₁, hrb, order, hsorted⟩ := op.refines H rb sorted valid.1 hlt
    have hlength : t₁.inorder.length + ops.length ≤ t.inorder.length + (op :: ops).length := by
      have := op.length_apply_le key t.inorder
      rw [order, List.length_cons]
      omega
    have henough : 2 * Nat.log 2 (t₁.inorder.length + ops.length + 1) < fuel :=
      (Nat.mul_le_mul_left 2 (Nat.log_mono_right (Nat.succ_le_succ hlength))).trans_lt enough
    obtain ⟨h', hruns, href⟩ := ih H₁ hrb hsorted (by rw [order]; exact valid.2) henough
      ((hdepth hrb (Nat.le_add_right _ _)).trans_lt henough)
    refine ⟨h', ?_, ?_⟩
    · rw [List.foldlM_cons, hrun]
      exact hruns
    · rw [List.foldl_cons, ← order]
      exact href

/-- **Nodes that are put into a tree, taken out and replaced, in any order**, are those of a list in the order of their
keys; no loop makes more passes than twice the logarithm of what the tree can hold, and nothing is read through a null
pointer. -/
theorem rbtree_refines (key : α → κ) (ops : List (RbOp α)) (valid : RbOp.AllValid key ops []) {fuel : Nat}
    (enough : 2 * Nat.log 2 (ops.length + 1) < fuel) (memory : α → RbNode α) :
    ∃ h, ops.foldlM (fun h op => op.run key fuel h) ⟨none, memory⟩ = some h ∧
      RbRefines key fuel h (ops.foldl (fun l op => op.apply key l) []) := by
  have H : RbHolds (⟨none, memory⟩ : RbRoot α) [] .nil := ⟨trivial, rfl, List.nodup_nil⟩
  refine RbRefines.run H ⟨rfl, 0, rfl⟩ List.Pairwise.nil valid ?_
  rwa [inorder_nil, List.length_nil, Nat.zero_add]

theorem rbtree_refines_six :
    let ops : List (RbOp Nat) := [.insert 30, .insert 10, .insert 20, .replace 20 25, .insert 21, .erase 30]
    ∃ h, ops.foldlM (fun h op => op.run (· / 10) 20 h) ⟨none, fun _ => ⟨none, none, none, .red⟩⟩ = some h ∧
      RbRefines (· / 10) 20 h (ops.foldl (fun l op => op.apply (· / 10) l) []) := by
  intro ops
  have hlog : 2 * Nat.log 2 7 < 20 := by
    have := Nat.log_le_self 2 7
    omega
  exact rbtree_refines (· / 10) ops (by decide) hlog _

/-- Where a run leads: the node that was erased is in the memory still, and not in the tree. -/
example : ([.insert 30, .insert 10, .insert 20, .replace 20 25, .insert 21, .erase 30] : List (RbOp Nat)).foldl
    (fun l op => op.apply (· / 10) l) [] = [10, 25, 21] := by decide

end Tinywf
