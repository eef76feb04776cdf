import Tinywf.RedBlack
/-!
# Rbtree — the nodes of a red-black tree in memory

Nodes that refer to each other by `rb_parent`, `rb_left` and `rb_right` hold a tree at a place of it (`RbHolds`): below it,
above it and beside it.  What the algorithms do in one go is a step from one such tree to the next: a colour is set
(`RbHolds.setColor`), a node is rotated (`RbHolds.rotate`), a subtree takes the place of its parent (`RbHolds.splice`), a node
that of another (`RbHolds.replaceNode`).

Where the source reads through a null pointer there is no result.
-/
namespace Tinywf

open RedBlack

variable {α : Type*}

/-- `struct rb_node`. -/
structure RbNode (α : Type*) where
  rbParent : Option α
  rbRight : Option α
  rbLeft : Option α
  rbColor : Color
deriving DecidableEq

namespace RbNode

def child (d : Side) (n : RbNode α) : Option α := match d with
  | .left => n.rbLeft
  | .right => n.rbRight

def setChild (d : Side) (v : Option α) (n : RbNode α) : RbNode α := match d with
  | .left => { n with rbLeft := v }
  | .right => { n with rbRight := v }

/-- A node with the child `v` on the side `d`, and `w` on the other. -/
def join (d : Side) (c : Color) (p v w : Option α) : RbNode α := match d with
  | .left => ⟨p, w, v, c⟩
  | .right => ⟨p, v, w, c⟩

variable {d : Side} {c c' : Color} {p q v w u : Option α} {n : RbNode α}

@[simp] theorem child_join : (join d c p v w).child d = v := by
  cases d <;> rfl

@[simp] theorem child_other_join : (join d c p v w).child d.other = w := by
  cases d <;> rfl

@[simp] theorem child_join_other : (join d.other c p v w).child d = w := by
  cases d <;> rfl

@[simp] theorem rbParent_join : (join d c p v w).rbParent = p := by
  cases d <;> rfl

@[simp] theorem rbColor_join : (join d c p v w).rbColor = c := by
  cases d <;> rfl

@[simp] theorem setChild_join : (join d c p v w).setChild d u = join d c p u w := by
  cases d <;> rfl

@[simp] theorem setChild_other_join : (join d c p v w).setChild d.other u = join d c p v u := by
  cases d <;> rfl

@[simp] theorem setChild_join_other : (join d.other c p v w).setChild d u = join d.other c p v u := by
  cases d <;> rfl

@[simp] theorem setParent_join : { join d c p v w with rbParent := q } = join d c q v w := by
  cases d <;> rfl

@[simp] theorem setColor_join : { join d c p v w with rbColor := c' } = join d c' p v w := by
  cases d <;> rfl

@[simp] theorem rbColor_setChild : (n.setChild d v).rbColor = n.rbColor := by
  cases d <;> rfl

@[simp] theorem rbParent_setChild : (n.setChild d v).rbParent = n.rbParent := by
  cases d <;> rfl

end RbNode

/-- `struct rb_root`, and the nodes in memory. -/
structure RbRoot (α : Type*) where
  rbNode : Option α
  node : α → RbNode α

namespace RbRoot

def parent (a : α) (h : RbRoot α) : Option α := (h.node a).rbParent

def child (d : Side) (a : α) (h : RbRoot α) : Option α := (h.node a).child d

def color (a : α) (h : RbRoot α) : Color := (h.node a).rbColor

variable [DecidableEq α]

def setNode (a : α) (n : RbNode α) (h : RbRoot α) : RbRoot α := { h with node := Function.update h.node a n }

def setParent (a : α) (p : Option α) (h : RbRoot α) : RbRoot α := h.setNode a { h.node a with rbParent := p }

def setChild (d : Side) (a : α) (v : Option α) (h : RbRoot α) : RbRoot α := h.setNode a ((h.node a).setChild d v)

def setColor (a : α) (c : Color) (h : RbRoot α) : RbRoot α := h.setNode a { h.node a with rbColor := c }

/-- `if (child) child->rb_parent = parent`. -/
def adopt (child parent : Option α) (h : RbRoot α) : RbRoot α := match child with
  | some a => h.setParent a parent
  | none => h

/-- What refers to `node` from above refers to `v`; `d` is the side that is looked at. -/
def relink (d : Side) (parent : Option α) (node : α) (v : Option α) (h : RbRoot α) : RbRoot α := match parent with
  | some p => if h.child d p = some node then h.setChild d p v else h.setChild d.other p v
  | none => { h with rbNode := v }

/-- `__rb_rotate_left`, and `__rb_rotate_right` in the mirror. -/
def rotate (d : Side) (node : α) (h : RbRoot α) : Option (RbRoot α) := do
  let right ← h.child d.other node
  let h := h.setChild d.other node (h.child d right)
  let h := h.adopt (h.child d right) (some node)
  let h := h.setChild d right (some node)
  let h := h.setParent right (h.parent node)
  let h := h.relink d (h.parent node) node (some right)
  some (h.setParent node (some right))

/-- `__rb_rotate_left`. -/
def rbRotateLeft (node : α) (h : RbRoot α) : Option (RbRoot α) := rotate .left node h

/-- `__rb_rotate_right`. -/
def rbRotateRight (node : α) (h : RbRoot α) : Option (RbRoot α) := rotate .right node h

/-- `rb_replace_node`. -/
def rbReplaceNode (victim newnode : α) (h : RbRoot α) : RbRoot α :=
  let parent := h.parent victim
  let h := h.relink .left parent victim (some newnode)
  let h := h.adopt (h.child .left victim) (some newnode)
  let h := h.adopt (h.child .right victim) (some newnode)
  h.setNode newnode (h.node victim)

/-- `rb_link_node`, `link` being where the parent refers to its child, or the root. -/
def rbLinkNode (node : α) (link : Option (α × Side)) (h : RbRoot α) : RbRoot α :=
  let h := h.setNode node ⟨link.map Prod.fst, none, none, .red⟩
  match link with
  | some (p, d) => h.setChild d p (some node)
  | none => { h with rbNode := some node }

/-! ## Memory -/

variable {h h' : RbRoot α} {a b : α} {d : Side} {p v : Option α}

theorem node_setNode (n : RbNode α) : (h.setNode a n).node b = if b = a then n else h.node b :=
  Function.update_apply ..

@[simp] theorem node_setNode_self (n : RbNode α) : (h.setNode a n).node a = n := Function.update_self ..

theorem node_setNode_ne (n : RbNode α) (hb : b ≠ a) : (h.setNode a n).node b = h.node b := Function.update_of_ne hb ..

@[simp] theorem rbNode_setNode (n : RbNode α) : (h.setNode a n).rbNode = h.rbNode := rfl

@[simp] theorem rbNode_setParent : (h.setParent a p).rbNode = h.rbNode := rfl

@[simp] theorem rbNode_setChild : (h.setChild d a v).rbNode = h.rbNode := rfl

@[simp] theorem rbNode_setColor (c : Color) : (h.setColor a c).rbNode = h.rbNode := rfl

@[simp] theorem node_setParent_self : (h.setParent a p).node a = { h.node a with rbParent := p } := node_setNode_self _

@[simp] theorem node_setChild_self : (h.setChild d a v).node a = (h.node a).setChild d v := node_setNode_self _

@[simp] theorem node_setColor_self (c : Color) : (h.setColor a c).node a = { h.node a with rbColor := c } :=
  node_setNode_self _

theorem node_setParent_ne (hb : b ≠ a) : (h.setParent a p).node b = h.node b := node_setNode_ne _ hb

theorem node_setChild_ne (hb : b ≠ a) : (h.setChild d a v).node b = h.node b := node_setNode_ne _ hb

theorem node_setColor_ne (c : Color) (hb : b ≠ a) : (h.setColor a c).node b = h.node b := node_setNode_ne _ hb

@[simp] theorem rbNode_adopt : (h.adopt v p).rbNode = h.rbNode := by
  cases v <;> rfl

theorem node_adopt_ne (hb : v ≠ some b) : (h.adopt v p).node b = h.node b := by
  cases v with
  | none => rfl
  | some a => exact node_setParent_ne fun he => hb (he ▸ rfl)

theorem node_relink_ne (hb : p ≠ some b) : (h.relink d p a v).node b = h.node b := by
  unfold relink
  cases p with
  | none => rfl
  | some p =>
    have hne : b ≠ p := fun he => hb (he ▸ rfl)
    dsimp only
    split
    · exact node_setChild_ne hne
    · exact node_setChild_ne hne

/-! ## A tree in memory -/

omit [DecidableEq α] in
/-- The nodes of `t`, below `p`. -/
def Rep (h : RbRoot α) : Option α → RbTree α → Prop
  | _, .nil => True
  | p, .node c a l r => h.node a = ⟨p, r.root, l.root, c⟩ ∧ Rep h (some a) l ∧ Rep h (some a) r

omit [DecidableEq α] in
/-- The nodes above and beside `v`. -/
def Way (h : RbRoot α) : List (Frame α) → Option α → Prop
  | [], v => h.rbNode = v
  | ⟨d, c, a, s⟩ :: up, v =>
    h.node a = .join d c (above up) v s.root ∧ Rep h (some a) s ∧ Way h up (some a)

end RbRoot

open RbRoot in
/-- **The memory holds the tree that has `t` at that place.** -/
structure RbHolds (h : RbRoot α) (up : List (Frame α)) (t : RbTree α) : Prop where
  rep : Rep h (above up) t
  way : Way h up t.root
  nodup : (t.inorder ++ outer up).Nodup

namespace RbRoot

theorem rep_join {h : RbRoot α} {p : Option α} {d : Side} {c : Color} {a : α} {s o : RbTree α} :
    Rep h p (.join d c a s o) ↔ h.node a = .join d c p s.root o.root ∧ Rep h (some a) s ∧ Rep h (some a) o := by
  cases d with
  | left => exact Iff.rfl
  | right =>
    show _ ∧ Rep h (some a) o ∧ Rep h (some a) s ↔ _
    exact and_congr_right fun _ => and_comm

/-- Whether a subtree is there, and red. -/
theorem Rep.filter_red {h : RbRoot α} {t : RbTree α} {p : Option α} (rep : Rep h p t) :
    t.root.filter (fun a => h.color a = .red) = if t.color = .red then t.root else none := by
  cases t with
  | nil => rfl
  | node c a l r =>
    have ha : h.color a = c := congrArg RbNode.rbColor rep.1
    rw [RbTree.root, Option.filter_some, ha, RbTree.color]
    cases c <;> rfl

theorem Rep.congr {h h' : RbRoot α} {t : RbTree α} (same : ∀ a ∈ t.inorder, h'.node a = h.node a) {p : Option α}
    (rep : Rep h p t) : Rep h' p t := by
  induction t generalizing p with
  | nil => trivial
  | node c a l r ihl ihr =>
    obtain ⟨ha, hl, hr⟩ := rep
    refine ⟨(same a (by simp)).trans ha, ihl (fun b hb => ?_) hl, ihr (fun b hb => ?_) hr⟩
    · exact same b (by simp [hb])
    · exact same b (by simp [hb])

theorem Way.congr {h h' : RbRoot α} {up : List (Frame α)} (same : ∀ a ∈ outer up, h'.node a = h.node a)
    (root : h'.rbNode = h.rbNode) {v : Option α} (way : Way h up v) : Way h' up v := by
  induction up generalizing v with
  | nil => exact root.trans way
  | cons f up ih =>
    obtain ⟨ha, hs, hup⟩ := way
    refine ⟨(same _ (by simp [outer])).trans ha, hs.congr fun b hb => ?_, ih (fun b hb => ?_) hup⟩
    · exact same b (by simp [outer, hb])
    · exact same b (by simp [outer, hb])

variable [DecidableEq α]

theorem Rep.adopt {h : RbRoot α} {t : RbTree α} {p : Option α} (rep : Rep h p t) (nodup : t.inorder.Nodup)
    (q : Option α) : Rep (h.adopt t.root q) q t := by
  cases t with
  | nil => trivial
  | node c a l r =>
    obtain ⟨ha, hl, hr⟩ := rep
    rw [RbTree.inorder_node, List.nodup_append, List.nodup_cons] at nodup
    obtain ⟨-, ⟨har, -⟩, hlr⟩ := nodup
    refine ⟨?_, hl.congr fun b hb => ?_, hr.congr fun b hb => ?_⟩
    · show (h.setParent a q).node a = _
      rw [node_setParent_self, ha]
    · exact node_setParent_ne (hlr b hb a (by simp))
    · exact node_setParent_ne (fun he => har (he ▸ hb))

/-- What refers to a node from above is on one side of it, whichever is looked at. -/
theorem Way.relink {h : RbRoot α} {up : List (Frame α)} {x : α} (way : Way h up (some x)) (nodup : (outer up).Nodup)
    (hx : x ∉ outer up) (d : Side) (v : Option α) : Way (h.relink d (above up) x v) up v := by
  cases up with
  | nil => rfl
  | cons f up =>
    obtain ⟨e, c, a, s⟩ := f
    obtain ⟨ha, hs, hup⟩ := way
    rw [outer, List.nodup_cons, List.mem_append, not_or] at nodup
    obtain ⟨⟨has, hao⟩, hnd⟩ := nodup
    have hsx : s.root ≠ some x := fun hr => hx (by simp [outer, RbTree.mem_of_root hr])
    have hrelink : h.relink d (above (⟨e, c, a, s⟩ :: up)) x v = h.setChild e a v := by
      show (if h.child d a = some x then h.setChild d a v else h.setChild d.other a v) = _
      unfold RbRoot.child
      rw [ha]
      rcases d.eq_or_other e with rfl | rfl
      · rw [RbNode.child_join, if_pos rfl]
      · rw [RbNode.child_join_other, if_neg hsx]
    rw [hrelink]
    refine ⟨?_, hs.congr fun b hb => ?_, hup.congr (fun b hb => ?_) rbNode_setChild⟩
    · rw [node_setChild_self, ha, RbNode.setChild_join]
    · exact node_setChild_ne fun he => has (he ▸ hb)
    · exact node_setChild_ne fun he => hao (he ▸ hb)

end RbRoot

/-! ## Steps from tree to tree -/

namespace RbHolds

open RbTree RbRoot

section Places

variable {h : RbRoot α} {up : List (Frame α)} {d : Side} {c c' : Color} {a x y : α} {s o A B C l r : RbTree α}

/-- Down to a child, and up again. -/
theorem down : RbHolds h up (join d c a s o) ↔ RbHolds h (⟨d, c, a, o⟩ :: up) s := by
  have hnodup : ((join d c a s o).inorder ++ outer up).Nodup ↔ (s.inorder ++ outer (⟨d, c, a, o⟩ :: up)).Nodup := by
    rw [inorder_join, outer]
    refine List.Perm.nodup_iff ?_
    refine ((d.perm_cat _ _ _).append_right _).trans ?_
    rw [List.cons_append, List.append_assoc]
    exact List.perm_middle.symm
  constructor
  · rintro ⟨rep, way, nodup⟩
    obtain ⟨ha, hs, ho⟩ := rep_join.1 rep
    rw [root_join] at way
    exact ⟨hs, ⟨ha, ho, way⟩, hnodup.1 nodup⟩
  · rintro ⟨rep, ⟨ha, ho, way⟩, nodup⟩
    exact ⟨rep_join.2 ⟨ha, rep, ho⟩, by rwa [root_join], hnodup.2 nodup⟩

theorem downOther : RbHolds h up (join d c a s o) ↔ RbHolds h (⟨d.other, c, a, s⟩ :: up) o := by
  rw [← join_other]
  exact down

theorem downPath {path : List (Frame α)} : RbHolds h up (plug path s) ↔ RbHolds h (path ++ up) s := by
  induction path generalizing s with
  | nil => exact Iff.rfl
  | cons f path ih => exact ih.trans down

theorem top (H : RbHolds h up s) : RbHolds h [] (plug up s) := downPath.2 (by rwa [List.append_nil])

theorem rbNode_ne {f : Frame α} (H : RbHolds h (f :: up) s) : h.rbNode ≠ s.root := by
  obtain ⟨-, way, nodup⟩ := H
  have hway : ∀ {f : Frame α} {up : List (Frame α)} {v : Option α}, Way h (f :: up) v →
      ∃ b ∈ outer (f :: up), h.rbNode = some b := by
    intro f up
    induction up generalizing f with
    | nil => exact fun way => ⟨f.addr, List.mem_cons_self, way.2.2⟩
    | cons g up ih =>
      intro v way
      obtain ⟨b, hb, hroot⟩ := ih way.2.2
      exact ⟨b, List.mem_cons_of_mem _ (List.mem_append_right _ hb), hroot⟩
  obtain ⟨b, hb, hroot⟩ := hway way
  intro heq
  exact (List.nodup_append'.1 nodup).2.2 (mem_of_root (heq.symm.trans hroot)) hb

theorem node_eq (H : RbHolds h up (join d c a s o)) : h.node a = .join d c (above up) s.root o.root :=
  (rep_join.1 H.rep).1

theorem parent_eq (H : RbHolds h up (join d c a s o)) : h.parent a = above up := by
  unfold RbRoot.parent
  rw [H.node_eq, RbNode.rbParent_join]

theorem color_eq (H : RbHolds h up (join d c a s o)) : h.color a = c := by
  unfold RbRoot.color
  rw [H.node_eq, RbNode.rbColor_join]

theorem child_eq (H : RbHolds h up (join d c a s o)) : h.child d a = s.root := by
  unfold RbRoot.child
  rw [H.node_eq, RbNode.child_join]

theorem child_other_eq (H : RbHolds h up (join d c a s o)) : h.child d.other a = o.root := by
  unfold RbRoot.child
  rw [H.node_eq, RbNode.child_other_join]

end Places

variable [DecidableEq α] {h : RbRoot α} {up : List (Frame α)} {d : Side} {c c' : Color} {a x y : α}
  {s o A B C l r : RbTree α}

theorem setColor (H : RbHolds h up (join d c a s o)) (c' : Color) : RbHolds (h.setColor a c') up (join d c' a s o) := by
  obtain ⟨rep, way, nodup⟩ := H
  obtain ⟨ha, hs, ho⟩ := rep_join.1 rep
  obtain ⟨⟨has, hao, haup⟩, -⟩ := nodup_join.1 nodup
  have hne : ∀ {b : α} {l : List α}, a ∉ l → b ∈ l → (h.setColor a c').node b = h.node b := fun hal hb =>
    node_setColor_ne _ fun he => hal (he ▸ hb)
  rw [root_join] at way
  refine ⟨rep_join.2 ⟨?_, hs.congr fun b => hne has, ho.congr fun b => hne hao⟩, ?_, ?_⟩
  · rw [node_setColor_self, ha, RbNode.setColor_join]
  · rw [root_join]
    exact way.congr (fun b => hne haup) (rbNode_setColor c')
  · simpa using nodup

theorem paint {t : RbTree α} (H : RbHolds h up t) (root : t.root = some a) (c : Color) :
    RbHolds (h.setColor a c) up (t.paint c) := by
  obtain ⟨c', b, s, o, rfl⟩ := RbTree.eq_join .left (t := t) (by rintro rfl; cases root)
  rw [root_join] at root
  cases root
  rw [paint_join]
  exact H.setColor c

theorem paintChild (H : RbHolds h up (join d c a s o)) (root : s.root = some x) (c' : Color) :
    RbHolds (h.setColor x c') up (join d c a (s.paint c') o) := down.2 ((down.1 H).paint root c')

theorem paintOther (H : RbHolds h up (join d c a s o)) (root : o.root = some x) (c' : Color) :
    RbHolds (h.setColor x c') up (join d c a s (o.paint c')) := by
  rw [← join_other] at H ⊢
  exact H.paintChild root c'

/-- **A rotation**: the child on the side away from `d` takes the place of its parent. -/
theorem rotate (H : RbHolds h up (join d c x A (join d c' y B C))) :
    ∃ h', h.rotate d x = some h' ∧ RbHolds h' up (join d c' y (join d c x A B) C) := by
  obtain ⟨rep, way, nodup⟩ := H
  rw [rep_join, rep_join] at rep
  obtain ⟨hx, hA, hy, hB, hC⟩ := rep
  have nodup' : ((join d c' y (join d c x A B) C).inorder ++ outer up).Nodup := by
    rwa [inorder_rotate d c c' c c' x y A B C]
  have apart := nodup_join.1 nodup
  rw [inorder_join] at apart
  simp only [Side.mem_cat, not_or] at apart
  obtain ⟨⟨hxA, ⟨hxy, hxB, hxC⟩, hxup⟩, ⟨-, -, hup⟩, -, hAup, hYup⟩ := apart
  obtain ⟨⟨hyS, hyC, hyup⟩, ⟨hSnd, hCnd, -⟩, hSC, hSup, hCup⟩ := nodup_join.1 nodup'
  rw [inorder_join, Side.mem_cat, not_or, not_or] at hyS
  obtain ⟨-, hyA, hyB⟩ := hyS
  rw [inorder_join] at hSnd hSC hSup
  have hBnd : B.inorder.Nodup := by
    have := (d.perm_cat A.inorder B.inorder x).nodup_iff.1 hSnd
    exact (List.nodup_append.1 (List.nodup_cons.1 this).2).2.1
  have hBup : B.inorder.Disjoint (outer up) := fun b hb => hSup (Side.mem_cat.2 (.inr (.inr hb)))
  have hAB : A.inorder.Disjoint B.inorder := by
    have := (d.perm_cat A.inorder B.inorder x).nodup_iff.1 hSnd
    exact (List.nodup_append'.1 (List.nodup_cons.1 this).2).2.2
  have hBC : B.inorder.Disjoint C.inorder := fun b hb => hSC (Side.mem_cat.2 (.inr (.inr hb)))
  -- the memory after each statement
  set h1 := h.setChild d.other x B.root with hh1
  set h2 := h1.adopt B.root (some x) with hh2
  set h3 := h2.setChild d y (some x) with hh3
  set h4 := h3.setParent y (above up) with hh4
  set h5 := h4.relink d (above up) x (some y) with hh5
  set h6 := h5.setParent x (some y) with hh6
  have hroot : ∀ {b : α}, b ∉ B.inorder → B.root ≠ some b := fun hb he => hb (mem_of_root he)
  have hother : ∀ {b : α}, b ≠ x → b ≠ y → b ∉ outer up → h6.node b = h2.node b := fun {b} hbx hby hbup => by
    rw [hh6, node_setParent_ne hbx, hh5, node_relink_ne (above_ne hbup), hh4, node_setParent_ne hby, hh3,
      node_setChild_ne hby]
  have hfar : ∀ {b : α}, b ≠ x → b ∉ B.inorder → h2.node b = h.node b := fun {b} hbx hbB => by
    rw [hh2, node_adopt_ne (hroot hbB), hh1, node_setChild_ne hbx]
  have hnx2 : h2.node x = .join d c (above up) A.root B.root := by
    rw [hh2, node_adopt_ne (hroot hxB), hh1, node_setChild_self, hx, root_join, RbNode.setChild_other_join]
  have hnx4 : h4.node x = .join d c (above up) A.root B.root := by
    rw [hh4, node_setParent_ne hxy, hh3, node_setChild_ne hxy, hnx2]
  have hnx : h6.node x = .join d c (some y) A.root B.root := by
    rw [hh6, node_setParent_self, hh5, node_relink_ne (above_ne hxup), hnx4, RbNode.setParent_join]
  have hny : h6.node y = .join d c' (above up) (some x) C.root := by
    rw [hh6, node_setParent_ne (Ne.symm hxy), hh5, node_relink_ne (above_ne hyup), hh4, node_setParent_self, hh3,
      node_setChild_self, hfar (Ne.symm hxy) hyB, hy, RbNode.setChild_join, RbNode.setParent_join]
  refine ⟨h6, ?_, rep_join.2 ⟨?_, rep_join.2 ⟨hnx, ?_, ?_⟩, ?_⟩, ?_, nodup'⟩
  · have hcy : h.child d y = B.root := by
      unfold RbRoot.child
      rw [hy, RbNode.child_join]
    have hcx : h.child d.other x = some y := by
      unfold RbRoot.child
      rw [hx, RbNode.child_other_join, root_join]
    have hcy1 : h1.child d y = B.root := by
      unfold RbRoot.child
      rw [hh1, node_setChild_ne (Ne.symm hxy), hy, RbNode.child_join]
    have hpx3 : h3.parent x = above up := by
      unfold RbRoot.parent
      rw [hh3, node_setChild_ne hxy, hnx2, RbNode.rbParent_join]
    have hpx4 : h4.parent x = above up := by
      unfold RbRoot.parent
      rw [hnx4, RbNode.rbParent_join]
    unfold RbRoot.rotate
    rw [hcx]
    show some _ = some _
    rw [hcy, ← hh1, hcy1, ← hh2, ← hh3, hpx3, ← hh4, hpx4]
  · rw [hny, root_join]
  · refine hA.congr fun b hb => ?_
    have hbx : b ≠ x := fun he => hxA (he ▸ hb)
    have hby : b ≠ y := fun he => hyA (he ▸ hb)
    rw [hother hbx hby (hAup hb), hfar hbx (hAB hb)]
  · have hrep : Rep h1 (some y) B := hB.congr fun b hb => node_setChild_ne fun he : b = x => hxB (he ▸ hb)
    refine (hrep.adopt hBnd (some x)).congr fun b hb => ?_
    exact hother (fun he => hxB (he ▸ hb)) (fun he => hyB (he ▸ hb)) (hBup hb)
  · refine hC.congr fun b hb => ?_
    have hbx : b ≠ x := fun he => hxC (he ▸ hb)
    rw [hother hbx (fun he => hyC (he ▸ hb)) (hCup hb), hfar hbx (fun hbB => hBC hbB hb)]
  · rw [root_join] at way ⊢
    have hne : ∀ {b : α}, b ∈ outer up → b ≠ x ∧ b ≠ y ∧ b ∉ B.inorder := fun hb =>
      ⟨fun he => hxup (he ▸ hb), fun he => hyup (he ▸ hb), fun hbB => hBup hbB hb⟩
    have hway : Way h4 up (some x) := by
      refine way.congr (fun b hb => ?_) ?_
      · obtain ⟨hbx, hby, hbB⟩ := hne hb
        rw [hh4, node_setParent_ne hby, hh3, node_setChild_ne hby, hfar hbx hbB]
      · rw [hh4, rbNode_setParent, hh3, rbNode_setChild, hh2, rbNode_adopt, hh1, rbNode_setChild]
    refine (hway.relink hup hxup d (some y)).congr (fun b hb => ?_) rbNode_setParent
    exact node_setParent_ne (hne hb).1

omit [DecidableEq α] in
/-- Nodes elsewhere are not part of it. -/
theorem congr {h' : RbRoot α} {t : RbTree α} (H : RbHolds h up t)
    (same : ∀ b ∈ t.inorder ++ outer up, h'.node b = h.node b) (root : h'.rbNode = h.rbNode) : RbHolds h' up t :=
  ⟨H.rep.congr fun b hb => same b (List.mem_append_left _ hb),
    H.way.congr (fun b hb => same b (List.mem_append_right _ hb)) root, H.nodup⟩

/-- **A subtree takes the place of its parent**, which has no other. -/
theorem splice (H : RbHolds h up (join d c x s .nil)) (e : Side) :
    RbHolds ((h.adopt s.root (above up)).relink e (above up) x s.root) up s := by
  obtain ⟨rep, way, nodup⟩ := H
  obtain ⟨hx, hs, -⟩ := rep_join.1 rep
  obtain ⟨⟨hxs, -, hxup⟩, ⟨hsnd, -, hup⟩, -, hsup, -⟩ := nodup_join.1 nodup
  rw [root_join] at way
  refine ⟨?_, ?_, List.nodup_append'.2 ⟨hsnd, hup, hsup⟩⟩
  · exact (hs.adopt hsnd (above up)).congr fun b hb => node_relink_ne (above_ne (hsup hb))
  · refine Way.relink (way.congr (fun b hb => ?_) rbNode_adopt) hup hxup e s.root
    exact node_adopt_ne fun he => hsup (mem_of_root he) hb

/-- **A node takes the place of another**, with its children and its colour. -/
theorem takeOver {h' : RbRoot α} (H : RbHolds h up (.node c x l r)) (fresh : y ∉ l.inorder ++ r.inorder ++ outer up)
    (copied : h'.node y = ⟨above up, r.root, l.root, c⟩)
    (same : ∀ b, b ≠ y → h'.node b =
      (((h.relink .left (above up) x (some y)).adopt l.root (some y)).adopt r.root (some y)).node b)
    (root : h'.rbNode = (h.relink .left (above up) x (some y)).rbNode) : RbHolds h' up (.node c y l r) := by
  obtain ⟨⟨hx, hl, hr⟩, way, nodup⟩ := H
  obtain ⟨⟨hxl, hxr, hxup⟩, ⟨hlnd, hrnd, hup⟩, hlr, hlup, hrup⟩ := nodup_join (d := .left) (c := c).1 nodup
  rw [List.mem_append, List.mem_append, not_or, not_or] at fresh
  obtain ⟨⟨hyl, hyr⟩, hyup⟩ := fresh
  have hroot : ∀ {b : α} {t : RbTree α}, b ∉ t.inorder → t.root ≠ some b := fun hb he => hb (mem_of_root he)
  have hrelink : ∀ {b : α}, b ∉ outer up → (h.relink .left (above up) x (some y)).node b = h.node b := fun hb =>
    node_relink_ne (above_ne hb)
  refine ⟨⟨copied, ?_, ?_⟩, ?_, ?_⟩
  · have hl1 : Rep (h.relink .left (above up) x (some y)) (some x) l := hl.congr fun b hb => hrelink (hlup hb)
    refine (hl1.adopt hlnd (some y)).congr fun b hb => ?_
    rw [same b (fun he => hyl (he ▸ hb)), node_adopt_ne (hroot (hlr hb))]
  · have hr1 : Rep ((h.relink .left (above up) x (some y)).adopt l.root (some y)) (some x) r :=
      hr.congr fun b hb => by rw [node_adopt_ne (hroot fun hbl => hlr hbl hb), hrelink (hrup hb)]
    exact (hr1.adopt hrnd (some y)).congr fun b hb => same b (fun he => hyr (he ▸ hb))
  · refine (way.relink hup hxup .left (some y)).congr (fun b hb => ?_) root
    rw [same b (fun he => hyup (he ▸ hb)), node_adopt_ne (hroot fun hbr => hrup hbr hb),
      node_adopt_ne (hroot fun hbl => hlup hbl hb)]
  · exact nodup_join (d := .left) (c := c).2 ⟨⟨hyl, hyr, hyup⟩, ⟨hlnd, hrnd, hup⟩, hlr, hlup, hrup⟩

/-- **`rb_replace_node`** puts a node that is not in the tree in the place of one that is. -/
theorem rbReplaceNode (H : RbHolds h up (.node c x l r)) (fresh : y ∉ l.inorder ++ r.inorder ++ outer up) :
    RbHolds (h.rbReplaceNode x y) up (.node c y l r) := by
  have hx : h.node x = ⟨above up, r.root, l.root, c⟩ := H.rep.1
  obtain ⟨⟨hxl, hxr, hxup⟩, ⟨hlnd, hrnd, hup⟩, hlr, hlup, hrup⟩ := nodup_join (d := .left) (c := c).1 H.nodup
  have hroot : ∀ {b : α} {t : RbTree α}, b ∉ t.inorder → t.root ≠ some b := fun hb he => hb (mem_of_root he)
  have hx1 : (h.relink .left (above up) x (some y)).node x = ⟨above up, r.root, l.root, c⟩ := by
    rw [node_relink_ne (above_ne hxup), hx]
  have hx2 : ((h.relink .left (above up) x (some y)).adopt l.root (some y)).node x = ⟨above up, r.root, l.root, c⟩ := by
    rw [node_adopt_ne (hroot hxl), hx1]
  have hx3 : (((h.relink .left (above up) x (some y)).adopt l.root (some y)).adopt r.root (some y)).node x =
      ⟨above up, r.root, l.root, c⟩ := by
    rw [node_adopt_ne (hroot hxr), hx2]
  have hparent : h.parent x = above up := congrArg RbNode.rbParent hx
  have hleft : (h.relink .left (above up) x (some y)).child .left x = l.root := congrArg RbNode.rbLeft hx1
  have hright : ((h.relink .left (above up) x (some y)).adopt l.root (some y)).child .right x = r.root :=
    congrArg RbNode.rbRight hx2
  have heq : h.rbReplaceNode x y =
      (((h.relink .left (above up) x (some y)).adopt l.root (some y)).adopt r.root (some y)).setNode y
        ⟨above up, r.root, l.root, c⟩ := by
    unfold RbRoot.rbReplaceNode
    dsimp only
    rw [hparent, hleft, hright, hx3]
  rw [heq]
  refine H.takeOver fresh (node_setNode_self _) (fun b hb => node_setNode_ne _ hb) ?_
  rw [rbNode_setNode, rbNode_adopt, rbNode_adopt]

/-- **`rb_link_node`** hangs a node into an empty place. -/
theorem rbLinkNode (H : RbHolds h up .nil) (fresh : x ∉ outer up) :
    RbHolds (h.rbLinkNode x (linkOf up)) up (.node .red x .nil .nil) := by
  obtain ⟨-, way, nodup⟩ := H
  have hlink : (linkOf up).map Prod.fst = above up := by
    cases up <;> rfl
  refine ⟨?_, ?_, List.nodup_cons.2 ⟨fresh, nodup⟩⟩
  all_goals unfold RbRoot.rbLinkNode; dsimp only; rw [hlink]
  · refine ⟨?_, trivial, trivial⟩
    cases up with
    | nil => exact node_setNode_self _
    | cons f up =>
      refine (node_setChild_ne fun he => fresh ?_).trans (node_setNode_self _)
      rw [he]
      exact List.mem_cons_self
  · cases up with
    | nil => rfl
    | cons f up =>
      obtain ⟨e, c, a, s⟩ := f
      obtain ⟨ha, hs, hup⟩ := way
      simp only [outer, List.mem_cons, List.mem_append, not_or] at fresh
      obtain ⟨hxa, hxs, hxup⟩ := fresh
      rw [RbTree.inorder_nil, List.nil_append, outer, List.nodup_cons, List.mem_append, not_or] at nodup
      obtain ⟨⟨has, haup⟩, -⟩ := nodup
      have hsame : ∀ (n : RbNode α) {b : α}, b ≠ x → b ≠ a →
          ((h.setNode x n).setChild e a (some x)).node b = h.node b := fun n b hbx hba => by
        rw [node_setChild_ne hba, node_setNode_ne _ hbx]
      show Way ((h.setNode x _).setChild e a (some x)) (⟨e, c, a, s⟩ :: up) (some x)
      refine ⟨?_, hs.congr fun b hb => ?_, hup.congr (fun b hb => ?_) (rbNode_setChild.trans (rbNode_setNode _))⟩
      · rw [node_setChild_self, node_setNode_ne _ (Ne.symm hxa), ha, RbNode.setChild_join]
      · exact hsame _ (fun he => hxs (he ▸ hb)) (fun he => has (he ▸ hb))
      · exact hsame _ (fun he => hxup (he ▸ hb)) (fun he => haup (he ▸ hb))

end RbHolds

end Tinywf
