import Tinywf.Rbtree
/-!
# RbtreeErase — `rb_erase`

A node with two children gives its place to the next one, which has at most one.  When a black node is gone the ways
through its place are short of one (`Short`): a pass of `__rb_erase_color` mends it for good, or goes up with it
(`eraseLoop_holds`).
-/
namespace Tinywf

open RedBlack RbTree

variable {α : Type*} [DecidableEq α]

namespace RbRoot

/-- `!child || child->rb_color == RB_BLACK`. -/
def blackAt (child : Option α) (h : RbRoot α) : Bool := child.all fun a => h.color a = .black

/-- `if (child) child->rb_color = c`. -/
def paintAt (child : Option α) (c : Color) (h : RbRoot α) : RbRoot α := match child with
  | some a => h.setColor a c
  | none => h

/-- `other`, once a red one is turned up over `parent`. -/
def blackSibling (d : Side) (parent : α) (h : RbRoot α) : Option (α × RbRoot α) := do
  let other ← h.child d.other parent
  if h.color other = .red then
    let h := h.setColor other .black
    let h := h.setColor parent .red
    let h ← h.rotate d parent
    let other ← h.child d.other parent
    some (other, h)
  else some (other, h)

/-- `other`, once its red child is the one away from `d`. -/
def redNephew (d : Side) (parent other : α) (h : RbRoot α) : Option (α × RbRoot α) :=
  if h.blackAt (h.child d.other other) then do
    let h := h.paintAt (h.child d other) .black
    let h := h.setColor other .red
    let h ← h.rotate d.other other
    let other ← h.child d.other parent
    some (other, h)
  else some (other, h)

/-- The loop of `__rb_erase_color`, up to the node that is coloured behind it. -/
def eraseLoop : Nat → Option α → Option α → RbRoot α → Option (Option α × RbRoot α)
  | 0, _, _, _ => none
  | n + 1, node, parent, h =>
    if h.blackAt node ∧ node ≠ h.rbNode then do
      let parent ← parent
      let d : Side := if h.child .left parent = node then .left else .right
      let (other, h) ← h.blackSibling d parent
      if h.blackAt (h.child d other) ∧ h.blackAt (h.child d.other other) then
        eraseLoop n (some parent) (h.parent parent) (h.setColor other .red)
      else
        let (other, h) ← h.redNephew d parent other
        let h := h.setColor other (h.color parent)
        let h := h.setColor parent .black
        let h := h.paintAt (h.child d.other other) .black
        let h ← h.rotate d parent
        some (h.rbNode, h)
    else some (node, h)

/-- `__rb_erase_color`. -/
def rbEraseColor (fuel : Nat) (node parent : Option α) (h : RbRoot α) : Option (RbRoot α) := do
  let (node, h) ← h.eraseLoop fuel node parent
  some (h.paintAt node .black)

/-- Down on the side `d` as far as there are nodes. -/
def farthest (d : Side) : Nat → α → RbRoot α → Option α
  | 0, _, _ => none
  | n + 1, node, h => match h.child d node with
    | some child => farthest d n child h
    | none => some node

/-- `rb_erase`. -/
def rbErase (fuel : Nat) (node : α) (h : RbRoot α) : Option (RbRoot α) :=
  match h.child .left node, h.child .right node with
  | some _, some right => do
    let old := node
    let node ← h.farthest .left fuel right
    let child := h.child .right node
    let parent := h.parent node
    let color := h.color node
    let h := (h.adopt child parent).relink .left parent node child
    let parent := if h.parent node = some old then some node else parent
    let h := h.setNode node (h.node old)
    let h := h.relink .left (h.parent old) old (some node)
    let left ← h.child .left old
    let h := h.setParent left (some node)
    let h := h.adopt (h.child .right old) (some node)
    if color = .black then h.rbEraseColor fuel child parent else some h
  | left, right =>
    let child := left.or right
    let parent := h.parent node
    let color := h.color node
    let h := (h.adopt child parent).relink .left parent node child
    if color = .black then h.rbEraseColor fuel child parent else some h

/-! ## One pass -/

variable {h : RbRoot α} {up : List (Frame α)} {d e : Side} {c : Color} {x p q o : α} {s t u A B : RbTree α} {n fuel : Nat}

omit [DecidableEq α] in
theorem blackAt_of_rep {v : Option α} (rep : Rep h v t) : h.blackAt t.root = decide (t.color = .black) := by
  cases t with
  | nil => rfl
  | node c a l r =>
    have ha : h.color a = c := congrArg RbNode.rbColor rep.1
    show decide (h.color a = .black) = _
    rw [ha, RbTree.color]

theorem paintAt_holds (H : RbHolds h up t) : RbHolds (h.paintAt t.root .black) up (t.paint .black) := by
  cases t with
  | nil => exact H
  | node c a l r => exact H.paint rfl .black

/-- The sides of `node` and `other`. -/
theorem side_of_hole (H : RbHolds h up (join d c p t s)) (hs : s ≠ .nil) :
    (if h.child .left p = t.root then Side.left else Side.right) = d := by
  cases d with
  | left => rw [H.child_eq, if_pos rfl]
  | right =>
    have hc : h.child .left p = s.root := H.child_other_eq
    rw [hc, if_neg fun heq => ?_]
    obtain ⟨c, a, B, C, rfl⟩ := eq_join .left hs
    rw [root_join] at heq
    exact (nodup_join.1 H.nodup).2.2.1 (mem_of_root heq.symm) (mem_of_root (root_join ..))

/-- Whether `other` is turned up or not, it is black then, and the place fits what it did before. -/
theorem blackSibling_holds (H : RbHolds h up (join d c p t s)) (above : Above (⟨d, c, p, s⟩ :: up) (n + 1)) :
    ∃ o h' up' c' s', h.blackSibling d p = some (o, h') ∧ RbHolds h' up' (join d c' p t s') ∧ s'.root = some o ∧
      s'.color = .black ∧ Above (⟨d, c', p, s'⟩ :: up') (n + 1) ∧ (c' = .red ∨ up' = up) ∧
      (plug up' (join d c' p t s')).inorder = (plug up (join d c p t s)).inorder := by
  have hs := above.sibling.ne_nil
  obtain ⟨c₁, o, A, B, rfl⟩ := eq_join d hs
  have hchild : h.child d.other p = some o := by
    rw [H.child_other_eq, root_join]
  have hcolor : h.color o = c₁ := (RbHolds.downOther.1 H).color_eq
  unfold blackSibling
  rw [hchild]
  cases c₁ with
  | black =>
    refine ⟨o, h, up, c, _, ?_, H, root_join .., color_join .., above, .inr rfl, rfl⟩
    show (if h.color o = .red then _ else _) = _
    rw [hcolor, if_neg (by decide)]
  | red =>
    obtain rfl : c = .black := by
      cases c with
      | red => cases (color_join ..).symm.trans above.1
      | black => rfl
    obtain ⟨hb, hup⟩ := above
    obtain ⟨hA, hB, hAn, hBn⟩ := balanced_red.1 hb
    have H1 := (H.paintOther (root_join ..) .black).setColor .red
    rw [paint_join] at H1
    obtain ⟨h', hrot, H2⟩ := H1.rotate
    obtain ⟨a, hroot⟩ : ∃ a, A.root = some a := by
      obtain ⟨c, a, l, r, rfl⟩ := eq_join .left hAn.ne_nil
      exact ⟨a, root_join ..⟩
    have hchild' : h'.child d.other p = some a := by
      rw [(RbHolds.down.1 H2).child_other_eq, hroot]
    refine ⟨a, h', _, .red, A, ?_, RbHolds.down.1 H2, hroot, hA, ⟨hA, hAn, rfl, hBn, hup⟩, .inl rfl, ?_⟩
    · show (if h.color o = .red then _ else _) = _
      rw [hcolor, if_pos rfl]
      show ((h.setColor o .black).setColor p .red).rotate d p >>= _ = _
      rw [hrot]
      show h'.child d.other p >>= _ = _
      rw [hchild']
      rfl
    · rw [plug_cons]
      exact inorder_plug_congr up (inorder_rotate ..)

/-- Whether `other` is turned down or not, its child away from `d` is red then. -/
theorem redNephew_holds (H : RbHolds h up (join d c p t (join d .black o A B))) (hA : Balanced n A) (hB : Balanced n B)
    (red : A.color = .black → B.color ≠ .black) :
    ∃ o' h' A' B', h.redNephew d p o = some (o', h') ∧ RbHolds h' up (join d c p t (join d .black o' A' B')) ∧
      Balanced n A' ∧ Balanced n B' ∧ B'.color = .red ∧
      (join d .black o' A' B').inorder = (join d .black o A B).inorder := by
  have HS := RbHolds.downOther.1 H
  have hfar : h.blackAt (h.child d.other o) = decide (B.color = .black) := by
    rw [HS.child_other_eq]
    exact blackAt_of_rep (rep_join.1 HS.rep).2.2
  unfold redNephew
  rw [hfar]
  by_cases hb : B.color = .black
  · have ha := color_eq_red fun ha => red ha hb
    obtain ⟨c₁, a, A₁, A₂, rfl⟩ := eq_join d (t := A) (by rintro rfl; cases ha)
    rw [color_join] at ha
    subst ha
    obtain ⟨hc₁, hc₂, h₁, h₂⟩ := balanced_red.1 hA
    have H1 := (HS.paintChild (root_join ..) .black).setColor .red
    rw [paint_join, ← join_other d .red, ← join_other d .black a] at H1
    obtain ⟨h', hrot, H2⟩ := H1.rotate
    rw [join_other, join_other] at H2
    have H3 := RbHolds.downOther.2 H2
    refine ⟨a, h', _, _, ?_, H3, h₁, balanced_red.2 ⟨hc₂, hb, h₂, hB⟩, color_join .., ?_⟩
    · rw [if_pos (by rw [decide_eq_true hb]), HS.child_eq, root_join]
      show ((h.setColor a .black).setColor o .red).rotate d.other o >>= _ = _
      rw [hrot]
      show h'.child d.other p >>= _ = _
      rw [H3.child_other_eq, root_join]
      rfl
    · simp only [inorder_join, Side.cat_cat]
  · refine ⟨o, h, A, B, ?_, H, hA, hB, color_eq_red hb, rfl⟩
    rw [if_neg (by rw [decide_eq_false hb]; decide)]

/-- The ways through a subtree are short of one black node, unless its root is red: that is to be coloured. -/
def Short (n : Nat) (t : RbTree α) : Prop :=
  t.color = .black ∧ Balanced n t ∨ t.color = .red ∧ Balanced (n + 1) (t.paint .black)

/-- What is left when the loop of `__rb_erase_color` ends. -/
def Mended (h' : RbRoot α) (l : List α) (up' : List (Frame α)) (t' : RbTree α) : Prop :=
  RbHolds h' up' t' ∧ (plug up' t').inorder = l ∧ (plug up' (t'.paint .black)).IsRedBlack

theorem eraseLoop_red (H : RbHolds h up t) (red : t.color = .red) :
    h.eraseLoop (n + 1) t.root (above up) = some (t.root, h) := by
  rw [eraseLoop, blackAt_of_rep H.rep, if_neg (by rw [red]; nofun)]

theorem eraseLoop_top (H : RbHolds h [] t) : h.eraseLoop (n + 1) t.root none = some (t.root, h) := by
  have hroot : h.rbNode = t.root := H.way
  rw [eraseLoop, if_neg fun hb => hb.2 hroot.symm]

/-- The last rotation, behind which no way is short. -/
theorem eraseTurn_holds (H : RbHolds h up (join d c p t (join d .black o A B)))
    (above : Above (⟨d, c, p, join d .black o A B⟩ :: up) (n + 1)) (ht : Balanced n t) (hA : Balanced n A)
    (hB : Balanced n B) (red : B.color = .red) :
    ∃ h' t', ((((h.setColor o (h.color p)).setColor p .black).paintAt
        (((h.setColor o (h.color p)).setColor p .black).child d.other o) .black).rotate d p) = some h' ∧
      RbHolds h' [] t' ∧ t'.inorder = (plug up (join d c p t (join d .black o A B))).inorder ∧ t'.IsRedBlack := by
  rw [H.color_eq]
  have H1 := (H.paintOther (root_join ..) c).setColor .black
  rw [paint_join] at H1
  have hchild : ((h.setColor o c).setColor p .black).child d.other o = B.root := (RbHolds.downOther.1 H1).child_other_eq
  have H2 := RbHolds.downOther.2 (RbHolds.downOther.2 (paintAt_holds (RbHolds.downOther.1 (RbHolds.downOther.1 H1))))
  obtain ⟨h', hrot, H3⟩ := H2.rotate
  rw [hchild]
  refine ⟨h', _, hrot, H3.top, inorder_plug_congr up ?_, redBlack_plug.2 ?_⟩
  · simp only [inorder_join, inorder_paint, Side.cat_cat]
  · have hB' := hB.paint_red red
    cases c with
    | red =>
      exact ⟨n + 1, above.2.2.2, balanced_red.2 ⟨color_join .., color_paint B, balanced_black.2 ⟨ht, hA⟩, hB'⟩,
        fun _ => above.2.2.1⟩
    | black =>
      exact ⟨n + 2, above.2, balanced_black.2 ⟨balanced_black.2 ⟨ht, hA⟩, hB'⟩, .of_black (color_join ..)⟩

/-- **The loop of `__rb_erase_color`**, from any place on the way up. -/
theorem eraseLoop_holds (H : RbHolds h up t) (above' : Above up (n + 1)) (short : Short n t)
    (enough : up.length < fuel) :
    ∃ h' up' t', h.eraseLoop fuel t.root (above up) = some (t'.root, h') ∧ Mended h' (plug up t).inorder up' t' := by
  induction fuel generalizing h up t n with
  | zero => exact absurd enough (Nat.not_lt_zero _)
  | succ fuel ih =>
    rcases short with ⟨black, balanced⟩ | ⟨red, balanced⟩
    · cases up with
      | nil => exact ⟨h, [], t, eraseLoop_top H, H, rfl, balanced.paint⟩
      | cons f up =>
        obtain ⟨d, c, p, s⟩ := f
        have HP := RbHolds.down.2 H
        have hside := side_of_hole HP above'.sibling.ne_nil
        obtain ⟨o, h₁, up₁, c₁, s₁, hsib, H₁, hroot, hs₁, above₁, hc₁, horder₁⟩ := blackSibling_holds HP above'
        obtain ⟨c₂, o', A, B, rfl⟩ := eq_join d (t := s₁) (by rintro rfl; cases hroot)
        rw [root_join] at hroot
        rw [color_join] at hs₁
        cases hroot
        subst hs₁
        obtain ⟨hA, hB⟩ := balanced_black.1 above₁.sibling
        have HS := RbHolds.downOther.1 H₁
        have hnear : h₁.blackAt (h₁.child d o) = decide (A.color = .black) := by
          rw [HS.child_eq]
          exact blackAt_of_rep (rep_join.1 HS.rep).2.1
        have hfar : h₁.blackAt (h₁.child d.other o) = decide (B.color = .black) := by
          rw [HS.child_other_eq]
          exact blackAt_of_rep (rep_join.1 HS.rep).2.2
        have hpass : h.eraseLoop (fuel + 1) t.root (some p) =
            if A.color = .black ∧ B.color = .black then
              (h₁.setColor o .red).eraseLoop fuel (some p) (h₁.parent p)
            else h₁.redNephew d p o >>= fun r =>
              ((((r.2.setColor r.1 (r.2.color p)).setColor p .black).paintAt
                (((r.2.setColor r.1 (r.2.color p)).setColor p .black).child d.other r.1) .black).rotate d p) >>=
                  fun h => some (h.rbNode, h) := by
          rw [eraseLoop, blackAt_of_rep H.rep, if_pos ⟨decide_eq_true black, Ne.symm H.rbNode_ne⟩]
          simp only [Option.bind_eq_bind, Option.bind_some, hside, hsib, hnear, hfar, decide_eq_true_eq]
        have horder : ∀ {t' : RbTree α}, t'.inorder = (plug up₁ (join d c₁ p t (join d .black o A B))).inorder →
            t'.inorder = (plug (⟨d, c, p, s⟩ :: up) t).inorder := fun ht => ht.trans horder₁
        show ∃ h' up' t', h.eraseLoop (fuel + 1) t.root (some p) = _ ∧ _
        rw [hpass]
        by_cases hb : A.color = .black ∧ B.color = .black
        · rw [if_pos hb, H₁.parent_eq]
          have H₂ := H₁.paintOther (root_join ..) .red
          rw [paint_join] at H₂
          have hchildren : Balanced (n + 1) (join d .black p t (join d .red o A B)) :=
            balanced_black.2 ⟨balanced, balanced_red.2 ⟨hb.1, hb.2, hA, hB⟩⟩
          have horder₂ : (plug up₁ (join d c₁ p t (join d .red o A B))).inorder =
              (plug (⟨d, c, p, s⟩ :: up) t).inorder := horder (inorder_plug_congr up₁ (by simp only [inorder_join]))
          rw [List.length_cons] at enough
          cases c₁ with
          | red =>
            obtain ⟨m, rfl⟩ : ∃ m, fuel = m + 1 := ⟨fuel - 1, by omega⟩
            refine ⟨_, up₁, _, ?_, H₂, horder₂, ?_⟩
            · have := eraseLoop_red (n := m) H₂ (color_join ..)
              rw [root_join] at this ⊢
              exact this
            · rw [paint_join]
              exact redBlack_plug.2 ⟨n + 1, above₁.2.2.2, hchildren, .of_black (color_join ..)⟩
          | black =>
            obtain rfl : up₁ = up := hc₁.resolve_left nofun
            obtain ⟨h', up', t', hloop, H', order, hrb⟩ :=
              ih H₂ above₁.2 (.inl ⟨color_join .., hchildren⟩) (by omega)
            rw [root_join] at hloop
            exact ⟨h', up', t', hloop, H', order.trans horder₂, hrb⟩
        · rw [if_neg hb]
          obtain ⟨o', h₂, A', B', hneph, H₂, hA', hB', hred, horder₂⟩ :=
            redNephew_holds H₁ hA hB fun ha hb' => hb ⟨ha, hb'⟩
          have above₂ : Above (⟨d, c₁, p, join d .black o' A' B'⟩ :: up₁) (n + 1) := by
            cases c₁ with
            | red => exact ⟨color_join .., balanced_black.2 ⟨hA', hB'⟩, above₁.2.2⟩
            | black => exact ⟨balanced_black.2 ⟨hA', hB'⟩, above₁.2⟩
          obtain ⟨h', t', hturn, H', order, hrb⟩ := eraseTurn_holds H₂ above₂ balanced hA' hB' hred
          refine ⟨h', [], t', ?_, H', horder (order.trans (inorder_plug_congr up₁ ?_)), ?_⟩
          · rw [hneph]
            show (RbRoot.rotate d p _ >>= _) = _
            rw [hturn]
            show some (h'.rbNode, h') = _
            rw [H'.way]
          · simp only [inorder_join d c₁, horder₂]
          · rw [plug, paint_of_black hrb.1]
            exact hrb
    · refine ⟨h, up, t, eraseLoop_red H red, H, rfl, ?_⟩
      exact redBlack_plug.2 ⟨n + 1, above', balanced, .of_black (color_paint t)⟩

/-- `__rb_erase_color`, when there was a black node above `t`. -/
theorem rbEraseColor_holds (H : RbHolds h up t) (above' : Above up (n + 1)) (balanced : Balanced n t)
    (enough : up.length < fuel) :
    ∃ h' t', h.rbEraseColor fuel t.root (above up) = some h' ∧ RbHolds h' [] t' ∧ t'.IsRedBlack ∧
      t'.inorder = (plug up t).inorder := by
  have short : Short n t := by
    by_cases hc : t.color = .black
    · exact .inl ⟨hc, balanced⟩
    · exact .inr ⟨color_eq_red hc, balanced.paint_red (color_eq_red hc)⟩
  obtain ⟨h', up', t', hloop, H', order, hrb⟩ := eraseLoop_holds H above' short enough
  refine ⟨h'.paintAt t'.root .black, _, ?_, (paintAt_holds H').top, hrb, ?_⟩
  · unfold rbEraseColor
    rw [hloop]
    rfl
  · rw [← order]
    exact inorder_plug_congr up' (inorder_paint ..)

/-! ## The whole -/

/-- A node of colour `c` is gone that had the one subtree `s`. -/
theorem erased (H : RbHolds h up s) (rb : (plug up (join d c x s .nil)).IsRedBlack) (enough : up.length < fuel) :
    ∃ h' t', (if c = .black then h.rbEraseColor fuel s.root (above up) else some h) = some h' ∧
      RbHolds h' [] t' ∧ t'.IsRedBlack ∧ t'.inorder = (plug up s).inorder := by
  obtain ⟨n, above', balanced, -⟩ := redBlack_plug.1 rb
  cases c with
  | red =>
    obtain ⟨hs, -, hsn, -⟩ := balanced_red.1 balanced
    exact ⟨h, _, if_neg (by decide), H.top, redBlack_plug.2 ⟨n, above', hsn, .of_black hs⟩, rfl⟩
  | black =>
    obtain ⟨m, rfl, hsn, -⟩ := balanced.succ_of_black
    rw [if_pos rfl]
    exact rbEraseColor_holds H above' hsn enough

omit [DecidableEq α] in
/-- **Down on one side** there is a last node, which has no child on that side. -/
theorem farthest_holds (H : RbHolds h up t) (root : t.root = some x) (enough : t.depth ≤ fuel) :
    ∃ path c y s, t = plug path (join d c y .nil s) ∧ (∀ f ∈ path, f.side = d) ∧ h.farthest d fuel x = some y := by
  induction fuel generalizing up t x with
  | zero => cases t with
    | nil => cases root
    | node => cases enough
  | succ fuel ih =>
    obtain ⟨c, a, s, o, rfl⟩ := eq_join d (t := t) (by rintro rfl; cases root)
    rw [root_join] at root
    cases root
    rw [farthest, H.child_eq]
    cases hs : s.root with
    | none =>
      rw [root_eq_none] at hs
      subst hs
      exact ⟨[], c, x, o, rfl, fun _ hf => (List.not_mem_nil hf).elim, rfl⟩
    | some b =>
      have hdepth : s.depth ≤ fuel := by
        have hj := length_le_depth [⟨d, c, x, o⟩] s
        rw [List.length_singleton, plug_cons, plug] at hj
        dsimp only at hj
        omega
      obtain ⟨path, c', y, u, rfl, hpath, hfar⟩ := ih (RbHolds.down.1 H) hs hdepth
      refine ⟨path ++ [⟨d, c, x, o⟩], c', y, u, ?_, fun f hf => ?_, hfar⟩
      · rw [plug_append]
        rfl
      · rcases List.mem_append.1 hf with hf | hf
        · exact hpath f hf
        · rw [List.mem_singleton.1 hf]

/-- `rb_erase` of a node with one child at most. -/
theorem rbErase_single (H : RbHolds h up (join d c x s .nil)) (rb : (plug up (join d c x s .nil)).IsRedBlack)
    (enough : up.length < fuel) :
    ∃ h' t', h.rbErase fuel x = some h' ∧ RbHolds h' [] t' ∧ t'.IsRedBlack ∧ t'.inorder = (plug up s).inorder := by
  have herase : h.rbErase fuel x =
      if c = .black then
        ((h.adopt s.root (above up)).relink .left (above up) x s.root).rbEraseColor fuel s.root (above up)
      else some ((h.adopt s.root (above up)).relink .left (above up) x s.root) := by
    have hcolor := H.color_eq
    have hparent := H.parent_eq
    unfold rbErase
    cases d with
    | left =>
      have hl : h.child .left x = s.root := H.child_eq
      have hr : h.child .right x = none := H.child_other_eq
      rw [hl, hr]
      cases s.root <;> simp only [hcolor, hparent] <;> rfl
    | right =>
      have hr : h.child .right x = s.root := H.child_eq
      have hl : h.child .left x = none := H.child_other_eq
      rw [hl, hr]
      simp only [hcolor, hparent]
      rfl
  rw [herase]
  exact erased (H.splice .left) rb enough

/-- `rb_erase` of a node with two: the next one takes its place. -/
theorem rbErase_double {l r : RbTree α} (H : RbHolds h up (.node c x l r)) (hl : l ≠ .nil) (hr : r ≠ .nil)
    (rb : (plug up (.node c x l r)).IsRedBlack) (enough : (plug up (.node c x l r)).depth < fuel) :
    ∃ h' t', h.rbErase fuel x = some h' ∧ RbHolds h' [] t' ∧ t'.IsRedBlack ∧
      t'.inorder = before up ++ (l.inorder ++ r.inorder) ++ after up := by
  obtain ⟨a, hla⟩ : ∃ a, l.root = some a := Option.ne_none_iff_exists'.1 fun h0 => hl (root_eq_none.1 h0)
  obtain ⟨b, hrb⟩ : ∃ b, r.root = some b := Option.ne_none_iff_exists'.1 fun h0 => hr (root_eq_none.1 h0)
  have hdepth := length_le_depth up (.node c x l r)
  have HR : RbHolds h (⟨.right, c, x, l⟩ :: up) r := RbHolds.down (d := .right).1 H
  obtain ⟨path, c₁, y, s, hpath, hleft, hfar⟩ := farthest_holds (d := .left) HR hrb (show r.depth ≤ fuel by
    rw [depth] at hdepth
    omega)
  subst hpath
  have Hy : RbHolds h (path ++ ⟨.right, c, x, l⟩ :: up) (join .right c₁ y s .nil) := RbHolds.downPath.1 HR
  obtain ⟨⟨hys, -, hyout⟩, -⟩ := nodup_join.1 Hy.nodup
  have hnotroot : ∀ {t : RbTree α} {z : α}, z ∉ t.inorder → t.root ≠ some z := fun hz he => hz (mem_of_root he)
  obtain ⟨⟨hxr, hxl, hxup⟩, -⟩ := nodup_join (d := .right) (c := c).1 H.nodup
  -- the next node is taken out
  obtain ⟨h₁, hh₁⟩ : ∃ h₁, h₁ = (h.adopt s.root (above (path ++ ⟨.right, c, x, l⟩ :: up))).relink .left
    (above (path ++ ⟨.right, c, x, l⟩ :: up)) y s.root := ⟨_, rfl⟩
  have H₁ : RbHolds h₁ up (.node c x l (plug path s)) := by
    rw [hh₁]
    exact RbHolds.down (d := .right).2 (RbHolds.downPath.2 (Hy.splice .left))
  have hy₁ : h₁.parent y = above (path ++ ⟨.right, c, x, l⟩ :: up) := by
    rw [hh₁]
    unfold RbRoot.parent
    rw [node_relink_ne (above_ne hyout), node_adopt_ne (hnotroot hys)]
    exact Hy.parent_eq
  obtain ⟨hyx, fresh⟩ : y ≠ x ∧ y ∉ l.inorder ++ (plug path s).inorder ++ outer up := by
    have hnd := H.nodup
    have hr : (plug path (join .left c₁ y .nil s)).inorder = y :: (plug path s).inorder :=
      inorder_leftmost hleft c₁ y s
    rw [inorder_node, hr, List.append_assoc, List.cons_append, List.cons_append, List.append_cons,
      List.perm_middle.nodup_iff, List.nodup_cons] at hnd
    simp only [List.mem_append, List.mem_singleton, not_or] at hnd ⊢
    exact ⟨hnd.1.1.2, ⟨hnd.1.1.1, hnd.1.2.1⟩, hnd.1.2.2⟩
  have hx₁ : h₁.node x = ⟨above up, (plug path s).root, l.root, c⟩ := H₁.rep.1
  -- and has the fields of the one to go
  obtain ⟨h₂, hh₂⟩ : ∃ h₂, h₂ = h₁.setNode y (h₁.node x) := ⟨_, rfl⟩
  have hne₂ : ∀ {z : α}, z ≠ y → h₂.node z = h₁.node z := fun hz => by
    rw [hh₂, node_setNode_ne _ hz]
  have H₂ : RbHolds h₂ up (.node c x l (plug path s)) := by
    refine H₁.congr (fun z hz => hne₂ fun he => ?_) (by rw [hh₂, rbNode_setNode])
    rw [he, inorder_node] at hz
    simp only [List.mem_append, List.mem_cons, not_or] at hz fresh
    tauto
  obtain ⟨h₃, hh₃⟩ : ∃ h₃, h₃ = h₂.relink .left (above up) x (some y) := ⟨_, rfl⟩
  obtain ⟨h₅, hh₅⟩ : ∃ h₅, h₅ = (h₃.adopt l.root (some y)).adopt (plug path s).root (some y) := ⟨_, rfl⟩
  simp only [List.mem_append, not_or] at fresh
  have hy₅ : ∀ {z : α}, z ∉ l.inorder → z ∉ (plug path s).inorder → z ∉ outer up → h₅.node z = h₂.node z :=
    fun hzl hzr hzup => by
      rw [hh₅, node_adopt_ne (hnotroot hzr), node_adopt_ne (hnotroot hzl), hh₃, node_relink_ne (above_ne hzup)]
  have H₅ : RbHolds h₅ up (.node c y l (plug path s)) := by
    refine H₂.takeOver (by simpa [and_assoc] using fresh) ?_ (fun z hz => by rw [hh₅, hh₃]) ?_
    · rw [hy₅ fresh.1.1 fresh.1.2 fresh.2, hh₂, node_setNode_self, hx₁]
    · rw [hh₅, rbNode_adopt, rbNode_adopt, hh₃]
  have hrb₅ : (plug (path ++ ⟨.right, c, y, l⟩ :: up) (join .right c₁ y s .nil)).IsRedBlack := by
    refine redBlack_readdress (a := x) ?_
    rw [plug_append]
    exact rb
  have hlength : (path ++ ⟨.right, c, y, l⟩ :: up).length < fuel := by
    have := length_le_depth (path ++ ⟨.right, c, x, l⟩ :: up) (join .right c₁ y s .nil)
    rw [plug_append] at this
    have := this.trans_lt enough
    rw [List.length_append, List.length_cons] at this ⊢
    omega
  obtain ⟨h', t', herased, H', hrb', order⟩ := erased (RbHolds.downPath.1 (RbHolds.down (d := .right).1 H₅)) hrb₅ hlength
  refine ⟨h', t', ?_, H', hrb', ?_⟩
  · have hcolor : h.color y = c₁ := Hy.color_eq
    have hparent : h.parent y = above (path ++ ⟨.right, c, x, l⟩ :: up) := Hy.parent_eq
    have hchild : h.child .right y = s.root := Hy.child_eq
    have hleft₀ : h.child .left x = some a := by
      rw [← hla]
      exact RbHolds.child_eq (d := .left) H
    have hright₀ : h.child .right x = some b := by
      rw [← hrb]
      exact RbHolds.child_eq (d := .right) H
    have hparent₂ : h₂.parent x = above up := RbHolds.parent_eq (d := .left) H₂
    have hx₃ : h₃.node x = ⟨above up, (plug path s).root, l.root, c⟩ := by
      rw [hh₃, node_relink_ne (above_ne hxup), hne₂ (Ne.symm hyx), hx₁]
    have hleft₃ : h₃.child .left x = some a := by
      rw [← hla]
      exact congrArg RbNode.rbLeft hx₃
    have hright₃ : (h₃.setParent a (some y)).child .right x = (plug path s).root := by
      unfold RbRoot.child
      rw [node_setParent_ne fun he : x = a => hxl (he ▸ mem_of_root hla), hx₃]
      rfl
    have habove : (if h₁.parent y = some x then some y else above (path ++ ⟨.right, c, x, l⟩ :: up)) =
        above (path ++ ⟨.right, c, y, l⟩ :: up) := by
      rw [hy₁]
      cases path with
      | nil => exact if_pos rfl
      | cons f path =>
        refine if_neg fun he => hxr ?_
        cases he
        exact (perm_plug _ _).mem_iff.2 (List.mem_append_right _ List.mem_cons_self)
    unfold rbErase
    rw [hleft₀, hright₀]
    simp only [hfar, Option.bind_eq_bind, Option.bind_some, hcolor, hparent, hchild, ← hh₁, habove, ← hh₂, hparent₂,
      ← hh₃, hleft₃, hright₃]
    rw [hh₅, hla] at herased
    exact herased
  · rw [order, plug_append, plug_cons, inorder_plug]
    show before up ++ (l.inorder ++ y :: (plug path s).inorder) ++ after up = _
    rw [← inorder_leftmost hleft c₁ y s]
    rfl

/-- **`rb_erase` takes a node out**, and leaves a red-black tree of the others. -/
theorem rbErase_holds {l r : RbTree α} (H : RbHolds h up (.node c x l r)) (rb : (plug up (.node c x l r)).IsRedBlack)
    (enough : (plug up (.node c x l r)).depth < fuel) :
    ∃ h' t', h.rbErase fuel x = some h' ∧ RbHolds h' [] t' ∧ t'.IsRedBlack ∧
      t'.inorder = before up ++ (l.inorder ++ r.inorder) ++ after up := by
  have hlength : up.length < fuel := by
    have := length_le_depth up (.node c x l r)
    omega
  by_cases hl : l = .nil
  · subst hl
    obtain ⟨h', t', herase, H', hrb, order⟩ := rbErase_single (d := .right) H rb hlength
    refine ⟨h', t', herase, H', hrb, ?_⟩
    rw [order, inorder_plug]
    rfl
  · by_cases hr : r = .nil
    · subst hr
      obtain ⟨h', t', herase, H', hrb, order⟩ := rbErase_single (d := .left) H rb hlength
      refine ⟨h', t', herase, H', hrb, ?_⟩
      rw [order, inorder_plug, inorder_nil, List.append_nil]
    · exact rbErase_double H hl hr rb enough

end RbRoot

end Tinywf
