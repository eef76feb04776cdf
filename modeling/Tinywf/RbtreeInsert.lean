import Tinywf.Rbtree
/-!
# RbtreeInsert — `rb_insert_color`

A red node was hung in, and only its parent may be wrong: it may be red as well.  A pass of the loop colours the nodes
above and goes two nodes up, or rotates and is done (`insertLoop_holds`).
-/
namespace Tinywf

open RedBlack RbTree

variable {α : Type*} [DecidableEq α]

namespace RbRoot

/-- Behind the uncle: `parent` is turned up over `node` first if they are on different sides. -/
def insertTurn (d : Side) (node parent gparent : α) (h : RbRoot α) : Option (α × RbRoot α) := do
  let (node, parent, h) ←
    if h.child d.other parent = some node then (h.rotate d parent).map fun h => (parent, node, h)
    else some (node, parent, h)
  let h := h.setColor parent .black
  let h := h.setColor gparent .red
  let h ← h.rotate d.other gparent
  some (node, h)

/-- The loop of `rb_insert_color`. -/
def insertLoop : Nat → α → RbRoot α → Option (RbRoot α)
  | 0, _, _ => none
  | n + 1, node, h => match h.parent node with
    | none => some h
    | some parent =>
      if h.color parent = .red then do
        let gparent ← h.parent parent
        let d : Side := if h.child .left gparent = some parent then .left else .right
        -- `uncle && uncle->rb_color == RB_RED`
        match (h.child d.other gparent).filter fun uncle => h.color uncle = .red with
        | some uncle =>
          insertLoop n gparent (((h.setColor uncle .black).setColor parent .black).setColor gparent .red)
        | none =>
          let (node, h) ← h.insertTurn d node parent gparent
          insertLoop n node h
      else some h

/-- `rb_insert_color`. -/
def rbInsertColor (fuel : Nat) (node : α) (h : RbRoot α) : Option (RbRoot α) := do
  let h ← h.insertLoop fuel node
  let root ← h.rbNode
  some (h.setColor root .black)

variable {h : RbRoot α} {up : List (Frame α)} {d e : Side} {c : Color} {x p g : α} {s t u B C : RbTree α} {n fuel : Nat}

theorem insertLoop_top (H : RbHolds h [] t) (root : t.root = some x) : h.insertLoop (n + 1) x = some h := by
  obtain ⟨c, a, l, r, rfl⟩ := eq_join .left (t := t) (by rintro rfl; cases root)
  rw [root_join] at root
  cases root
  rw [insertLoop, H.parent_eq]
  rfl

theorem insertLoop_black (H : RbHolds h (⟨d, .black, p, s⟩ :: up) t) (root : t.root = some x) :
    h.insertLoop (n + 1) x = some h := by
  have hp := (RbHolds.down.2 H).color_eq
  obtain ⟨c, a, l, r, rfl⟩ := eq_join .left (t := t) (by rintro rfl; cases root)
  rw [root_join] at root
  cases root
  rw [insertLoop, H.parent_eq]
  show (if h.color p = .red then _ else some h) = some h
  rw [hp, if_neg (by decide)]

/-- The side that `parent` is on. -/
theorem side_eq (H : RbHolds h up (join e c g s u)) (root : s.root = some p) :
    (if h.child .left g = some p then Side.left else Side.right) = e := by
  cases e with
  | left => rw [H.child_eq, root, if_pos rfl]
  | right =>
    have hc : h.child .left g = u.root := H.child_other_eq
    have hne : u.root ≠ some p := fun hu =>
      (nodup_join.1 H.nodup).2.2.1 (mem_of_root root) (mem_of_root hu)
    rw [hc, if_neg hne]

/-- The last rotation, with `node` outside. -/
theorem insertTurn_outer (H : RbHolds h up (join e .black g (join e .red p t s) u)) (root : t.root = some x) :
    ∃ h', h.insertTurn e x p g = some (x, h') ∧ RbHolds h' up (join e .black p t (join e .red g s u)) := by
  have hp := RbHolds.down.1 H
  have hne : h.child e.other p ≠ some x := fun hx => by
    rw [hp.child_other_eq] at hx
    exact (nodup_join.1 hp.nodup).2.2.1 (mem_of_root root) (mem_of_root hx)
  have H1 := H.paintChild (root_join ..) .black
  rw [paint_join] at H1
  have H2 := H1.setColor .red
  rw [← join_other e .red, ← join_other e .black] at H2
  obtain ⟨h', hrot, H3⟩ := H2.rotate
  rw [join_other, join_other] at H3
  refine ⟨h', ?_, H3⟩
  unfold insertTurn
  rw [if_neg hne]
  show ((h.setColor p .black).setColor g .red).rotate e.other g >>= _ = _
  rw [hrot]
  rfl

/-- With `node` inside, `parent` is turned up over it first. -/
theorem insertTurn_inner (H : RbHolds h up (join e .black g (join e .red p s (join e .red x B C)) u)) :
    ∃ h', h.insertTurn e x p g = some (p, h') ∧
      RbHolds h' up (join e .black x (join e .red p s B) (join e .red g C u)) := by
  have hp := RbHolds.down.1 H
  have heq : h.child e.other p = some x := by
    rw [hp.child_other_eq, root_join]
  obtain ⟨h1, hrot1, H1⟩ := hp.rotate
  have H2 := (RbHolds.down.2 H1).paintChild (root_join ..) .black
  rw [paint_join] at H2
  have H3 := H2.setColor .red
  rw [← join_other e .red, ← join_other e .black x] at H3
  obtain ⟨h', hrot, H4⟩ := H3.rotate
  rw [join_other, join_other] at H4
  refine ⟨h', ?_, H4⟩
  unfold insertTurn
  rw [if_pos heq, hrot1]
  show ((h1.setColor x .black).setColor g .red).rotate e.other g >>= _ = _
  rw [hrot]
  rfl

/-- What is left when the loop of `rb_insert_color` ends. -/
def Inserted (h' : RbRoot α) (l : List α) (t' : RbTree α) : Prop :=
  RbHolds h' [] t' ∧ t'.inorder = l ∧ (t'.paint .black).IsRedBlack

omit [DecidableEq α] in
theorem Inserted.of_place {t' : RbTree α} (H : RbHolds h up t') (above : Above up n) (balanced : Balanced n t')
    (fits : Fits up t') (order : t'.inorder = t.inorder) : Inserted h (plug up t).inorder (plug up t') := by
  obtain ⟨-, m, hm⟩ := redBlack_plug.2 ⟨n, above, balanced, fits⟩
  exact ⟨H.top, inorder_plug_congr up order, hm.paint⟩

omit [DecidableEq α] in
/-- A red parent is below a black node. -/
theorem above_red (above : Above (⟨d, .red, p, s⟩ :: up) n) :
    ∃ e g u up', up = ⟨e, .black, g, u⟩ :: up' ∧ s.color = .black ∧ Balanced n s ∧ Balanced n u ∧ Above up' (n + 1) := by
  obtain ⟨hs, hsn, hc, hup⟩ := above
  cases up with
  | nil => cases hc
  | cons f up =>
    obtain ⟨e, c, g, u⟩ := f
    obtain rfl : c = .black := Option.some.inj hc
    exact ⟨e, g, u, up, rfl, hs, hsn, hup.1, hup.2⟩

/-- A pass with a black uncle is the last. -/
theorem insertLoop_turn (H : RbHolds h (⟨d, .red, p, s⟩ :: ⟨e, .black, g, u⟩ :: up) t) (root : t.root = some x)
    (red : t.color = .red) (hs : s.color = .black) (hu : u.color = .black) (hsn : Balanced n s) (hun : Balanced n u)
    (above : Above up (n + 1)) (balanced : Balanced n t) (positive : 0 < fuel) :
    ∃ h' t', (h.insertTurn e x p g >>= fun r => r.2.insertLoop fuel r.1) = some h' ∧
      Inserted h' (plug up (join e .black g (join d .red p t s) u)).inorder t' := by
  obtain ⟨m, rfl⟩ : ∃ m, fuel = m + 1 := ⟨fuel - 1, by omega⟩
  obtain ⟨c, a, B, C, rfl⟩ := eq_join e (t := t) (by rintro rfl; cases root)
  rw [root_join] at root
  rw [color_join] at red
  cases root
  subst red
  obtain ⟨hB, hC, hBn, hCn⟩ := balanced_red.1 balanced
  have HG : RbHolds h up (join e .black g (join d .red p (join e .red x B C) s) u) := RbHolds.down.2 (RbHolds.down.2 H)
  rcases e.eq_or_other d with rfl | rfl
  · obtain ⟨h', hturn, H'⟩ := insertTurn_outer HG (root_join ..)
    refine ⟨h', _, ?_, .of_place H' above ?_ (.of_black (color_join ..)) (inorder_rotate ..).symm⟩
    · rw [hturn]
      exact insertLoop_black (RbHolds.down.1 H') (root_join ..)
    · exact balanced_black.2 ⟨balanced, balanced_red.2 ⟨hs, hu, hsn, hun⟩⟩
  · rw [join_other] at HG
    obtain ⟨h', hturn, H'⟩ := insertTurn_inner HG
    refine ⟨h', _, ?_, .of_place H' above ?_ (.of_black (color_join ..)) ?_⟩
    · rw [hturn]
      exact insertLoop_black (RbHolds.down.1 H') (root_join ..)
    · exact balanced_black.2 ⟨balanced_red.2 ⟨hs, hB, hsn, hBn⟩, balanced_red.2 ⟨hC, hu, hCn, hun⟩⟩
    · simp only [inorder_join, Side.cat_cat, Side.cat_other]

/-- **The loop of `rb_insert_color`**, from any place on the way up. -/
theorem insertLoop_holds (H : RbHolds h up t) (root : t.root = some x) (red : t.color = .red) (above : Above up n)
    (balanced : Balanced n t) (enough : up.length < fuel) :
    ∃ h' t', h.insertLoop fuel x = some h' ∧ Inserted h' (plug up t).inorder t' := by
  induction fuel generalizing h up x t n with
  | zero => exact absurd enough (Nat.not_lt_zero _)
  | succ fuel ih => cases up with
    | nil => exact ⟨h, t, insertLoop_top H root, H, rfl, balanced.paint⟩
    | cons f up =>
      obtain ⟨d, c, p, s⟩ := f
      cases c with
      | black =>
        exact ⟨h, _, insertLoop_black H root, .of_place H above balanced (fun _ => rfl) rfl⟩
      | red =>
        obtain ⟨e, g, u, up, rfl, hs, hsn, hun, hup⟩ := above_red above
        have HP := RbHolds.down.2 H
        have HG := RbHolds.down.2 HP
        have hpass : h.insertLoop (fuel + 1) x = match u.root.filter fun uncle => h.color uncle = .red with
            | some uncle => (((h.setColor uncle .black).setColor p .black).setColor g .red).insertLoop fuel g
            | none => h.insertTurn e x p g >>= fun r => r.2.insertLoop fuel r.1 := by
          have hparent : h.parent x = some p := by
            obtain ⟨c, a, B, C, rfl⟩ := eq_join .left (t := t) (by rintro rfl; cases root)
            cases (root_join ..).symm.trans root
            exact H.parent_eq
          rw [insertLoop, hparent]
          dsimp only
          rw [HP.color_eq, if_pos rfl, HP.parent_eq]
          show (match (h.child (Side.other _) g).filter _ with | some _ => _ | none => _) = _
          rw [side_eq HG (root_join ..), HG.child_other_eq]
        rw [hpass, (rep_join.1 HG.rep).2.2.filter_red]
        by_cases hu : u.color = .red
        · obtain ⟨c, a, B, C, rfl⟩ := eq_join e (t := u) (by rintro rfl; cases hu)
          rw [color_join] at hu
          subst hu
          rw [color_join, if_pos rfl, root_join]
          obtain ⟨-, -, hBn, hCn⟩ := balanced_red.1 hun
          have H1 := HG.paintOther (root_join ..) .black
          have H2 := (H1.paintChild (root_join ..) .black).setColor .red
          rw [paint_join, paint_join] at H2
          obtain ⟨h', t', hloop, horder, hinserted⟩ := ih H2 (root_join ..) (color_join ..) hup
            (balanced_red.2 ⟨color_join .., color_join .., balanced_black.2 ⟨balanced, hsn⟩,
              balanced_black.2 ⟨hBn, hCn⟩⟩) (by rw [List.length_cons, List.length_cons] at enough; omega)
          refine ⟨h', t', hloop, horder, ?_⟩
          rw [hinserted.1]
          refine ⟨inorder_plug_congr up ?_, hinserted.2⟩
          simp only [inorder_join]
        · rw [if_neg hu]
          refine insertLoop_turn H root red hs ?_ hsn hun hup balanced ?_
          · cases hc : u.color with
            | red => exact absurd hc hu
            | black => rfl
          · rw [List.length_cons, List.length_cons] at enough
            omega

/-- **`rb_insert_color` makes a tree red-black again** in which a red node was hung. -/
theorem rbInsertColor_holds (H : RbHolds h up (.node .red x .nil .nil)) (rb : (plug up .nil).IsRedBlack)
    (enough : up.length < fuel) :
    ∃ h' t', h.rbInsertColor fuel x = some h' ∧ RbHolds h' [] t' ∧ t'.IsRedBlack ∧
      t'.inorder = before up ++ x :: after up := by
  obtain ⟨n, above, rfl, -⟩ := redBlack_plug.1 rb
  obtain ⟨h', t', hloop, H', order, hrb⟩ := insertLoop_holds (n := 0) H rfl rfl above ⟨rfl, rfl, rfl, rfl⟩ enough
  have horder : t'.inorder = before up ++ x :: after up := by
    rw [order, inorder_plug]
    simp
  obtain ⟨c, a, s, o, rfl⟩ := eq_join .left (t := t') (by rintro rfl; simp at horder)
  have hroot : h'.rbNode = some a := H'.way
  refine ⟨h'.setColor a .black, _, ?_, H'.paint (root_join ..) .black, hrb, ?_⟩
  · unfold rbInsertColor
    rw [hloop]
    show h'.rbNode >>= _ = _
    rw [hroot]
    rfl
  · rw [inorder_paint, horder]

end RbRoot

end Tinywf
