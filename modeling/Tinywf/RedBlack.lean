import Tinywf.InorderTree
import Mathlib.Algebra.Ring.Nat
import Mathlib.Data.Nat.Log
/-!
# RedBlack — coloured search trees, and places in them

A place in a tree is the subtree there and the way up from it (`Frame`), so that an algorithm that walks up a tree and
mends it on the way is an induction on that way.  Whether a tree is red-black can be said at any place of it
(`redBlack_plug`): what is above fits below subtrees of one black height (`Above`).  What a red-black tree holds bounds
the length of every way in it (`way_le_log`).
-/
namespace RedBlack

inductive Color where
  | red | black
deriving DecidableEq

inductive Side where
  | left | right
deriving DecidableEq

def Side.other : Side → Side
  | left => right
  | right => left

@[simp] theorem Side.other_other (d : Side) : d.other.other = d := by
  cases d <;> rfl

@[simp] theorem Side.other_ne (d : Side) : d.other ≠ d := by
  cases d <;> decide

theorem Side.eq_or_other (d e : Side) : e = d ∨ e = d.other := by
  cases d <;> cases e <;> decide

variable {α : Type*}

/-- The values on one side, a value, and those on the other. -/
def Side.cat (d : Side) (xs : List α) (a : α) (ys : List α) : List α := match d with
  | left => xs ++ a :: ys
  | right => ys ++ a :: xs

theorem Side.cat_cat (d : Side) (xs ys zs : List α) (a b : α) :
    d.cat (d.cat xs a ys) b zs = d.cat xs a (d.cat ys b zs) := by
  cases d <;> simp [cat]

theorem Side.cat_other (d : Side) (xs ys : List α) (a : α) : d.other.cat xs a ys = d.cat ys a xs := by
  cases d <;> rfl

theorem Side.mem_cat {d : Side} {xs ys : List α} {a b : α} : b ∈ d.cat xs a ys ↔ b = a ∨ b ∈ xs ∨ b ∈ ys := by
  cases d <;> simp [cat] <;> tauto

theorem Side.perm_cat (d : Side) (xs ys : List α) (a : α) : (d.cat xs a ys).Perm (a :: (xs ++ ys)) := by
  cases d with
  | left => exact List.perm_middle
  | right => exact List.perm_middle.trans (.cons a List.perm_append_comm)

inductive RbTree (α : Type*) where
  | nil
  | node (c : Color) (a : α) (l r : RbTree α)

namespace RbTree

def bare : RbTree α → BinaryTree α
  | nil => .nil
  | node _ a l r => .node a l.bare r.bare

def inorder (t : RbTree α) : List α := InorderTree.inorder t.bare

def root : RbTree α → Option α
  | nil => none
  | node _ a _ _ => some a

/-- An empty tree counts as black. -/
def color : RbTree α → Color
  | nil => .black
  | node c _ _ _ => c

def paint (c : Color) : RbTree α → RbTree α
  | nil => nil
  | node _ a l r => node c a l r

/-- The node with the subtree `s` on the side `d`, and `o` on the other. -/
def join (d : Side) (c : Color) (a : α) (s o : RbTree α) : RbTree α := match d with
  | .left => node c a s o
  | .right => node c a o s

def depth : RbTree α → Nat
  | nil => 0
  | node _ _ l r => max l.depth r.depth + 1

/-- No red node has a red child, and every way down passes `n` black nodes. -/
def Balanced : Nat → RbTree α → Prop
  | n, nil => n = 0
  | n, node .red _ l r => l.color = .black ∧ r.color = .black ∧ Balanced n l ∧ Balanced n r
  | n, node .black _ l r => ∃ m, n = m + 1 ∧ Balanced m l ∧ Balanced m r

/-- **A red-black tree.** -/
def IsRedBlack (t : RbTree α) : Prop := t.color = .black ∧ ∃ n, Balanced n t

@[simp] theorem inorder_nil : (nil : RbTree α).inorder = [] := rfl

@[simp] theorem inorder_node (c : Color) (a : α) (l r : RbTree α) :
    (node c a l r).inorder = l.inorder ++ a :: r.inorder := rfl

@[simp] theorem inorder_paint (c : Color) (t : RbTree α) : (t.paint c).inorder = t.inorder := by
  cases t <;> rfl

theorem eq_join (d : Side) {t : RbTree α} (h : t ≠ nil) : ∃ c a s o, t = join d c a s o := by
  cases t with
  | nil => exact absurd rfl h
  | node c a l r => cases d with
    | left => exact ⟨c, a, l, r, rfl⟩
    | right => exact ⟨c, a, r, l, rfl⟩

theorem join_other (d : Side) (c : Color) (a : α) (s o : RbTree α) : join d.other c a s o = join d c a o s := by
  cases d <;> rfl

@[simp] theorem inorder_join (d : Side) (c : Color) (a : α) (s o : RbTree α) :
    (join d c a s o).inorder = d.cat s.inorder a o.inorder := by
  cases d <;> rfl

@[simp] theorem root_join (d : Side) (c : Color) (a : α) (s o : RbTree α) : (join d c a s o).root = some a := by
  cases d <;> rfl

@[simp] theorem color_join (d : Side) (c : Color) (a : α) (s o : RbTree α) : (join d c a s o).color = c := by
  cases d <;> rfl

@[simp] theorem paint_join (d : Side) (c c' : Color) (a : α) (s o : RbTree α) :
    (join d c a s o).paint c' = join d c' a s o := by
  cases d <;> rfl

theorem root_eq_none {t : RbTree α} : t.root = none ↔ t = nil := by
  cases t <;> simp [root]

theorem mem_of_root {t : RbTree α} {a : α} (h : t.root = some a) : a ∈ t.inorder := by
  cases t with
  | nil => cases h
  | node c b l r =>
    cases h
    simp

/-- **A rotation keeps the order.** -/
theorem inorder_rotate (d : Side) (c c' c₁ c₂ : Color) (a b : α) (s t u : RbTree α) :
    (join d c' b (join d c a s t) u).inorder = (join d c₁ a s (join d c₂ b t u)).inorder := by
  simp only [inorder_join]
  exact d.cat_cat ..

@[simp] theorem balanced_nil {n : Nat} : Balanced n (nil : RbTree α) ↔ n = 0 := Iff.rfl

@[simp] theorem balanced_red {n : Nat} {d : Side} {a : α} {s o : RbTree α} :
    Balanced n (join d .red a s o) ↔ s.color = .black ∧ o.color = .black ∧ Balanced n s ∧ Balanced n o := by
  cases d with
  | left => exact Iff.rfl
  | right =>
    show o.color = .black ∧ s.color = .black ∧ Balanced n o ∧ Balanced n s ↔ _
    tauto

@[simp] theorem balanced_black {n : Nat} {d : Side} {a : α} {s o : RbTree α} :
    Balanced (n + 1) (join d .black a s o) ↔ Balanced n s ∧ Balanced n o := by
  cases d with
  | left =>
    refine ⟨fun ⟨m, hm, hs, ho⟩ => ?_, fun ⟨hs, ho⟩ => ⟨n, rfl, hs, ho⟩⟩
    cases hm
    exact ⟨hs, ho⟩
  | right =>
    refine ⟨fun ⟨m, hm, ho, hs⟩ => ?_, fun ⟨hs, ho⟩ => ⟨n, rfl, ho, hs⟩⟩
    cases hm
    exact ⟨hs, ho⟩

theorem Balanced.succ_of_black {n : Nat} {d : Side} {a : α} {s o : RbTree α} (h : Balanced n (join d .black a s o)) :
    ∃ m, n = m + 1 ∧ Balanced m s ∧ Balanced m o := by
  cases n with
  | zero =>
    cases d <;> obtain ⟨m, hm, -⟩ := h <;> cases hm
  | succ m => exact ⟨m, rfl, balanced_black.1 h⟩

/-- A tree with a black node on its ways is not empty. -/
theorem Balanced.ne_nil {n : Nat} {t : RbTree α} (h : Balanced (n + 1) t) : t ≠ nil := by
  rintro rfl
  cases h

/-- Only the root of a balanced tree may be in the way of its being red-black. -/
theorem Balanced.paint {n : Nat} {t : RbTree α} (h : Balanced n t) : (t.paint .black).IsRedBlack := by
  cases t with
  | nil => exact ⟨rfl, n, h⟩
  | node c a l r => cases c with
    | red => exact ⟨rfl, n + 1, n, rfl, h.2.2⟩
    | black => exact ⟨rfl, n, h⟩

theorem Balanced.paint_red {n : Nat} {t : RbTree α} (h : Balanced n t) (red : t.color = .red) :
    Balanced (n + 1) (t.paint .black) := by
  cases t with
  | nil => cases red
  | node c a l r =>
    cases red
    exact ⟨n, rfl, h.2.2⟩

theorem paint_of_black {t : RbTree α} (h : t.color = .black) : t.paint .black = t := by
  cases t with
  | nil => rfl
  | node c a l r =>
    cases h
    rfl

theorem color_paint (t : RbTree α) : (t.paint .black).color = .black := by
  cases t <;> rfl

theorem color_eq_red {t : RbTree α} (h : t.color ≠ .black) : t.color = .red := by
  cases hc : t.color with
  | red => rfl
  | black => exact absurd hc h

/-- What a tree of black height `n` holds at least. -/
theorem Balanced.two_pow_le {n : Nat} {t : RbTree α} (h : Balanced n t) : 2 ^ n ≤ t.inorder.length + 1 := by
  induction t generalizing n with
  | nil =>
    cases h
    exact Nat.le_refl 1
  | node c a l r ihl ihr =>
    rw [inorder_node, List.length_append, List.length_cons]
    cases c with
    | red =>
      have hl := ihl h.2.2.1
      omega
    | black =>
      obtain ⟨m, rfl, hl, hr⟩ := h
      have := ihl hl
      have := ihr hr
      rw [Nat.pow_succ]
      omega

/-- The ways down have at most as many red nodes as black ones, but for a red root. -/
theorem Balanced.depth_le {n : Nat} {t : RbTree α} (h : Balanced n t) :
    t.depth ≤ 2 * n + (if t.color = .red then 1 else 0) := by
  induction t generalizing n with
  | nil => exact Nat.zero_le _
  | node c a l r ihl ihr =>
    cases c with
    | red =>
      obtain ⟨hcl, hcr, hl, hr⟩ := h
      have hl := ihl hl
      have hr := ihr hr
      rw [hcl] at hl
      rw [hcr] at hr
      simp only [depth, color, if_true] at hl hr ⊢
      simp at hl hr
      omega
    | black =>
      obtain ⟨m, rfl, hl, hr⟩ := h
      have hl := ihl hl
      have hr := ihr hr
      have hle : ∀ c : Color, (if c = .red then 1 else 0) ≤ 1 := fun c => by split <;> omega
      have := hle l.color
      have := hle r.color
      simp only [depth, color]
      omega

theorem IsRedBlack.depth_le_log {t : RbTree α} (h : IsRedBlack t) : t.depth ≤ 2 * Nat.log 2 (t.inorder.length + 1) := by
  obtain ⟨hc, n, hn⟩ := h
  have hd := hn.depth_le
  have hlog : n ≤ Nat.log 2 (t.inorder.length + 1) := Nat.le_log_of_pow_le (by omega) hn.two_pow_le
  rw [hc] at hd
  simp at hd
  omega

end RbTree

/-! ## Places -/

/-- A node above, and its subtree on the other side. -/
structure Frame (α : Type*) where
  side : Side
  color : Color
  addr : α
  sibling : RbTree α

open RbTree

/-- The whole tree, from a subtree and the way up from it. -/
def plug : List (Frame α) → RbTree α → RbTree α
  | [], t => t
  | f :: up, t => plug up (join f.side f.color f.addr t f.sibling)

/-- The node right above. -/
def above (up : List (Frame α)) : Option α := up.head?.map Frame.addr

/-- The link to a place. -/
def linkOf (up : List (Frame α)) : Option (α × Side) := up.head?.map fun f => (f.addr, f.side)

/-- What is above and beside. -/
def outer : List (Frame α) → List α
  | [] => []
  | f :: up => f.addr :: (f.sibling.inorder ++ outer up)

/-- What the order has before a place. -/
def before : List (Frame α) → List α
  | [] => []
  | f :: up => before up ++ match f.side with
    | .left => []
    | .right => f.sibling.inorder ++ [f.addr]

/-- And what it has behind it. -/
def after : List (Frame α) → List α
  | [] => []
  | f :: up => (match f.side with
    | .left => f.addr :: f.sibling.inorder
    | .right => []) ++ after up

@[simp] theorem plug_cons (f : Frame α) (up : List (Frame α)) (t : RbTree α) :
    plug (f :: up) t = plug up (join f.side f.color f.addr t f.sibling) := rfl

theorem plug_append (path up : List (Frame α)) (t : RbTree α) : plug (path ++ up) t = plug up (plug path t) := by
  induction path generalizing t with
  | nil => rfl
  | cons f path ih => exact ih _

theorem inorder_plug (up : List (Frame α)) (t : RbTree α) :
    (plug up t).inorder = before up ++ t.inorder ++ after up := by
  induction up generalizing t with
  | nil => simp [plug, before, after]
  | cons f up ih =>
    rw [plug, ih, inorder_join, before, after]
    cases f.side <;> simp [Side.cat]

/-- The order of the whole is that of the parts. -/
theorem inorder_plug_congr (up : List (Frame α)) {t t' : RbTree α} (h : t'.inorder = t.inorder) :
    (plug up t').inorder = (plug up t).inorder := by
  rw [inorder_plug, inorder_plug, h]

theorem before_of_left {up : List (Frame α)} (h : ∀ f ∈ up, f.side = .left) : before up = [] := by
  induction up with
  | nil => rfl
  | cons f up ih =>
    rw [before, ih fun g hg => h g (List.mem_cons_of_mem _ hg), h f List.mem_cons_self]
    rfl

/-- The leftmost node comes first. -/
theorem inorder_leftmost {path : List (Frame α)} (h : ∀ f ∈ path, f.side = .left) (c : Color) (a : α) (s : RbTree α) :
    (plug path (join .right c a s .nil)).inorder = a :: (plug path s).inorder := by
  rw [inorder_plug, inorder_plug, before_of_left h]
  rfl

theorem perm_plug (up : List (Frame α)) (t : RbTree α) : (plug up t).inorder.Perm (t.inorder ++ outer up) := by
  induction up generalizing t with
  | nil => simp [plug, outer]
  | cons f up ih =>
    rw [plug, outer]
    refine (ih _).trans ?_
    rw [inorder_join]
    refine ((f.side.perm_cat _ _ _).append_right _).trans ?_
    simp only [List.cons_append, List.append_assoc]
    exact List.perm_middle.symm

theorem linkOf_append (path : List (Frame α)) (f : Frame α) :
    linkOf (path ++ [f]) = (linkOf path).or (some (f.addr, f.side)) := by
  cases path <;> rfl

theorem mem_outer {up : List (Frame α)} {a : α} : a ∈ outer up ↔ a ∈ before up ∨ a ∈ after up := by
  have := (perm_plug up .nil).mem_iff (a := a)
  rw [inorder_plug, inorder_nil, List.append_nil, List.nil_append, List.mem_append] at this
  exact this.symm

theorem above_ne {up : List (Frame α)} {a : α} (h : a ∉ outer up) : above up ≠ some a := by
  cases up with
  | nil => nofun
  | cons f up =>
    intro ha
    cases ha
    exact h List.mem_cons_self

/-- The node of a place and its subtrees are apart from each other, and from all around. -/
theorem nodup_join {d : Side} {c : Color} {a : α} {s o : RbTree α} {l : List α} :
    ((join d c a s o).inorder ++ l).Nodup ↔ (a ∉ s.inorder ∧ a ∉ o.inorder ∧ a ∉ l) ∧
      (s.inorder.Nodup ∧ o.inorder.Nodup ∧ l.Nodup) ∧
      s.inorder.Disjoint o.inorder ∧ s.inorder.Disjoint l ∧ o.inorder.Disjoint l := by
  rw [inorder_join, ((d.perm_cat s.inorder o.inorder a).append_right l).nodup_iff, List.cons_append, List.nodup_cons]
  simp only [List.nodup_append', List.mem_append, List.disjoint_append_left]
  tauto

theorem length_le_depth (up : List (Frame α)) (t : RbTree α) : up.length + t.depth ≤ (plug up t).depth := by
  induction up generalizing t with
  | nil => simp [plug]
  | cons f up ih =>
    have hj : t.depth + 1 ≤ (join f.side f.color f.addr t f.sibling).depth := by
      cases f.side <;> simp only [join, depth] <;> omega
    have := ih (join f.side f.color f.addr t f.sibling)
    rw [plug, List.length_cons]
    omega

/-- **A way in a red-black tree is no longer than twice the logarithm of what the tree holds.** -/
theorem way_le_log {up : List (Frame α)} {t : RbTree α} (h : (plug up t).IsRedBlack) :
    up.length ≤ 2 * Nat.log 2 ((plug up t).inorder.length + 1) := by
  have := h.depth_le_log
  have := length_le_depth up t
  omega

/-- The lowest node above on the side `d`. -/
def nearest (d : Side) : List (Frame α) → Option α
  | [] => none
  | f :: up => if f.side = d.other then some f.addr else nearest d up

theorem nearest_right (up : List (Frame α)) : nearest .right up = (after up).head? := by
  induction up with
  | nil => rfl
  | cons f up ih =>
    obtain ⟨d, c, a, s⟩ := f
    cases d with
    | left => rfl
    | right => exact ih

theorem nearest_left (up : List (Frame α)) : nearest .left up = (before up).getLast? := by
  induction up with
  | nil => rfl
  | cons f up ih =>
    obtain ⟨d, c, a, s⟩ := f
    cases d with
    | left =>
      rw [before]
      simpa [nearest, Side.other] using ih
    | right =>
      rw [before, List.getLast?_append, List.getLast?_append]
      rfl

theorem after_of_right {up : List (Frame α)} (h : ∀ f ∈ up, f.side = .right) : after up = [] := by
  induction up with
  | nil => rfl
  | cons f up ih =>
    rw [after, ih fun g hg => h g (List.mem_cons_of_mem _ hg), h f List.mem_cons_self]
    rfl

/-- The rightmost node comes last. -/
theorem inorder_rightmost {path : List (Frame α)} (h : ∀ f ∈ path, f.side = .right) (c : Color) (a : α) (s : RbTree α) :
    (plug path (join .left c a s .nil)).inorder = (plug path s).inorder ++ [a] := by
  rw [inorder_plug, inorder_plug, after_of_right h]
  simp [Side.cat]

/-- Every value has its place. -/
theorem exists_place {t : RbTree α} {a : α} (h : a ∈ t.inorder) : ∃ up c l r, t = plug up (.node c a l r) := by
  induction t with
  | nil => cases h
  | node c b l r ihl ihr =>
    rw [inorder_node, List.mem_append, List.mem_cons] at h
    rcases h with h | rfl | h
    · obtain ⟨up, c', l', r', rfl⟩ := ihl h
      exact ⟨up ++ [⟨.left, c, b, r⟩], c', l', r', by rw [plug_append]; rfl⟩
    · exact ⟨[], c, l, r, rfl⟩
    · obtain ⟨up, c', l', r', rfl⟩ := ihr h
      exact ⟨up ++ [⟨.right, c, b, l⟩], c', l', r', by rw [plug_append]; rfl⟩

/-! ## Red-black at a place -/

/-- The colour right above. -/
def aboveColor (up : List (Frame α)) : Option Color := up.head?.map Frame.color

/-- What is above fits a subtree of black height `n`. -/
def Above : List (Frame α) → Nat → Prop
  | [], _ => True
  | ⟨_, .red, _, s⟩ :: up, n => s.color = .black ∧ s.Balanced n ∧ aboveColor up = some .black ∧ Above up n
  | ⟨_, .black, _, s⟩ :: up, n => s.Balanced n ∧ Above up (n + 1)

theorem Above.sibling {d : Side} {c : Color} {a : α} {s : RbTree α} {up : List (Frame α)} {n : Nat}
    (h : Above (⟨d, c, a, s⟩ :: up) n) : s.Balanced n := by
  cases c with
  | red => exact h.2.1
  | black => exact h.1

/-- A red subtree is below a black node. -/
def Fits (up : List (Frame α)) (t : RbTree α) : Prop := t.color = .red → aboveColor up = some .black

theorem Fits.of_black {up : List (Frame α)} {t : RbTree α} (h : t.color = .black) : Fits up t := fun hr => by
  rw [h] at hr
  cases hr

/-- **What makes a tree red-black can be said at any place of it.** -/
theorem redBlack_plug {up : List (Frame α)} {t : RbTree α} :
    (plug up t).IsRedBlack ↔ ∃ n, Above up n ∧ t.Balanced n ∧ Fits up t := by
  induction up generalizing t with
  | nil =>
    unfold plug IsRedBlack Fits
    refine ⟨fun ⟨hc, n, hn⟩ => ⟨n, trivial, hn, fun hr => ?_⟩, fun ⟨n, _, hn, hf⟩ => ⟨?_, n, hn⟩⟩
    · rw [hc] at hr
      cases hr
    · cases hc : t.color with
      | red => cases hf hc
      | black => rfl
  | cons f up ih =>
    obtain ⟨d, c, a, s⟩ := f
    rw [plug, ih]
    cases c with
    | red =>
      constructor
      · rintro ⟨n, hup, hb, hf⟩
        obtain ⟨hct, hcs, ht, hs⟩ := balanced_red.1 hb
        exact ⟨n, ⟨hcs, hs, hf (color_join ..), hup⟩, ht, .of_black hct⟩
      · rintro ⟨n, ⟨hcs, hs, ha, hup⟩, ht, hf⟩
        have hct : t.color = .black := by
          cases hc : t.color with
          | red => cases hf hc
          | black => rfl
        exact ⟨n, hup, balanced_red.2 ⟨hct, hcs, ht, hs⟩, fun _ => ha⟩
    | black =>
      constructor
      · rintro ⟨n, hup, hb, hf⟩
        obtain ⟨m, rfl, ht, hs⟩ := Balanced.succ_of_black hb
        exact ⟨m, ⟨hs, hup⟩, ht, fun _ => rfl⟩
      · rintro ⟨n, ⟨hs, hup⟩, ht, -⟩
        exact ⟨n + 1, hup, balanced_black.2 ⟨ht, hs⟩, .of_black (color_join ..)⟩

/-- It does not matter which nodes are above. -/
theorem above_readdress {path up : List (Frame α)} {d : Side} {c : Color} {a b : α} {s : RbTree α} {n : Nat} :
    Above (path ++ ⟨d, c, a, s⟩ :: up) n ↔ Above (path ++ ⟨d, c, b, s⟩ :: up) n := by
  induction path generalizing n with
  | nil => cases c <;> exact Iff.rfl
  | cons f path ih =>
    obtain ⟨e, c', x, o⟩ := f
    cases c' with
    | black => exact and_congr_right fun _ => ih
    | red =>
      refine and_congr_right fun _ => and_congr_right fun _ => and_congr ?_ ih
      cases path <;> exact Iff.rfl

theorem redBlack_readdress {path up : List (Frame α)} {d : Side} {c : Color} {a b : α} {s t : RbTree α}
    (h : (plug (path ++ ⟨d, c, a, s⟩ :: up) t).IsRedBlack) : (plug (path ++ ⟨d, c, b, s⟩ :: up) t).IsRedBlack := by
  obtain ⟨n, hup, ht, hfits⟩ := redBlack_plug.1 h
  refine redBlack_plug.2 ⟨n, above_readdress.1 hup, ht, fun hr => ?_⟩
  rw [← hfits hr]
  cases path <;> rfl

end RedBlack
