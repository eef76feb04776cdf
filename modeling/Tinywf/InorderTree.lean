import Mathlib.Data.Tree.Basic
import Mathlib.Data.List.Nodup
/-!
# InorderTree — binary trees as the sequences they hold

What a search tree holds is its in-order sequence.  Descending to an empty place and hanging a value there puts it into
the sequence behind everything it does not precede (`inorder_hang`), and the last value it went to the left of is the first
one it precedes (`bound_inorder`); hanging it on the right of the last node puts it at the end (`inorder_linkRight`); the
node the source's pointer walks come to is the one next to it in the sequence (`next_inorder`, `prev_inorder`).  What
rebalancing does is left open (`Balance`), up to the sequence.
-/
namespace InorderTree

open BinaryTree

variable {α : Type*}

def inorder : BinaryTree α → List α
  | .nil => []
  | .node a l r => inorder l ++ a :: inorder r

/-- A value keeps the order of a sequence it comes into between smaller and greater ones. -/
theorem pairwise_insert {R : α → α → Prop} {l₁ l₂ : List α} {x : α} (hl : (l₁ ++ l₂).Pairwise R)
    (h₁ : ∀ a ∈ l₁, R a x) (h₂ : ∀ a ∈ l₂, R x a) : (l₁ ++ x :: l₂).Pairwise R := by
  rw [List.pairwise_append] at hl ⊢
  refine ⟨hl.1, List.pairwise_cons.2 ⟨h₂, hl.2.1⟩, fun a ha b hb => ?_⟩
  rcases List.mem_cons.1 hb with rfl | hb
  · exact h₁ a ha
  · exact hl.2.2 a ha b hb

/-- The leftmost node. -/
def first : BinaryTree α → Option α
  | .nil => none
  | .node a l _ => (first l).or (some a)

/-- The rightmost node. -/
def last : BinaryTree α → Option α
  | .nil => none
  | .node a _ r => (last r).or (some a)

/-- Hangs `x` into the empty place that `left` leads to. -/
def hang (x : α) (left : α → Bool) : BinaryTree α → BinaryTree α
  | .nil => .node x .nil .nil
  | .node a l r => if left a then .node a (hang x left l) r else .node a l (hang x left r)

/-- Where `left` leads to: the last node passed, and whether the place is on its left. -/
def place (left : α → Bool) : BinaryTree α → Option (α × Bool)
  | .nil => none
  | .node a l r => if left a then (place left l).or (some (a, true)) else (place left r).or (some (a, false))

/-- The last value that `left` led to the left of, which starts as `up`. -/
def bound (left : α → Bool) (up : Option α) : BinaryTree α → Option α
  | .nil => up
  | .node a l r => if left a then bound left (some a) l else bound left up r

variable [DecidableEq α]

/-- `x` becomes the right child of the node `parent`. -/
def linkRight (parent x : α) : BinaryTree α → BinaryTree α
  | .nil => .nil
  | .node a l r =>
    if a = parent then .node a l (.node x .nil .nil) else .node a (linkRight parent x l) (linkRight parent x r)

/-- The node behind `x`: leftmost on its right, or else the lowest one above it that it is on the left of, which starts
as `up`. -/
def nextFrom (x : α) (up : Option α) : BinaryTree α → Option α
  | .nil => none
  | .node a l r => if a = x then (first r).or up else (nextFrom x (some a) l).or (nextFrom x up r)

/-- The node before `x`, the same way. -/
def prevFrom (x : α) (up : Option α) : BinaryTree α → Option α
  | .nil => none
  | .node a l r => if a = x then (last l).or up else (prevFrom x (some a) r).or (prevFrom x up l)

def next (t : BinaryTree α) (x : α) : Option α := nextFrom x none t

def prev (t : BinaryTree α) (x : α) : Option α := prevFrom x none t

variable (α) in
/-- **Rebalancing**: after a value was hung into a tree, and taking one out. -/
structure Balance where
  insertColor : α → BinaryTree α → BinaryTree α
  erase : α → BinaryTree α → BinaryTree α
  insertColor_inorder : ∀ x t, inorder (insertColor x t) = inorder t
  erase_inorder : ∀ x t, (inorder t).Nodup → x ∈ inorder t → inorder (erase x t) = (inorder t).erase x

/-! ## First and last -/

omit [DecidableEq α] in
theorem first_inorder (t : BinaryTree α) : first t = (inorder t).head? := by
  induction t with
  | nil => rfl
  | node a l r ihl _ =>
    rw [first, inorder, ihl, List.head?_append]
    rfl

omit [DecidableEq α] in
theorem last_inorder (t : BinaryTree α) : last t = (inorder t).getLast? := by
  induction t with
  | nil => rfl
  | node a l r _ ihr =>
    rw [last, inorder, ihr, List.getLast?_append, List.getLast?_cons]
    cases (inorder r).getLast? <;> rfl

omit [DecidableEq α] in
theorem inorder_eq_nil {t : BinaryTree α} : inorder t = [] ↔ t = .nil := by
  cases t with
  | nil => simp [inorder]
  | node a l r => simp [inorder]

/-! ## Hanging a value in -/

omit [DecidableEq α] in
/-- **A value hung in comes behind all it is not led to the left of.** -/
theorem inorder_hang (x : α) (left : α → Bool) (t : BinaryTree α)
    (mono : (inorder t).Pairwise fun a b => left a = true → left b = true) :
    ∃ l₁ l₂, inorder t = l₁ ++ l₂ ∧ inorder (hang x left t) = l₁ ++ x :: l₂ ∧
      (∀ a ∈ l₁, left a = false) ∧ (∀ a ∈ l₂, left a = true) ∧
      ∀ p, (place left t = some (p, true) → l₂.head? = some p) ∧ (place left t = some (p, false) → l₁.getLast? = some p) := by
  induction t with
  | nil => exact ⟨[], [], rfl, rfl, by simp, by simp, fun p => by simp [place]⟩
  | node a l r ihl ihr =>
    rw [inorder, List.pairwise_append, List.pairwise_cons] at mono
    obtain ⟨hl, ⟨har, hr⟩, hlr⟩ := mono
    by_cases ha : left a = true
    · obtain ⟨l₁, l₂, hin, hhang, h1, h2, hp⟩ := ihl hl
      refine ⟨l₁, l₂ ++ a :: inorder r, ?_, ?_, h1, ?_, fun p => ?_⟩
      · rw [inorder, hin, List.append_assoc]
      · rw [hang, if_pos ha, inorder, hhang, List.append_assoc, List.cons_append]
      · intro b hb
        rw [List.mem_append, List.mem_cons] at hb
        rcases hb with hb | rfl | hb
        · exact h2 b hb
        · exact ha
        · exact har b hb ha
      · rw [place, if_pos ha]
        cases hpl : place left l with
        | some q =>
          have := hp p
          rw [hpl] at this
          rw [Option.or_some]
          refine ⟨fun h => ?_, this.2⟩
          rw [List.head?_append, this.1 h]
          rfl
        | none =>
          -- the left subtree is empty, and the place next to `a`
          have hnil : l = .nil := by
            cases l with
            | nil => rfl
            | node b l' r' =>
              rw [place] at hpl
              split at hpl <;> simp at hpl
          subst hnil
          have : l₂ = [] := by
            have := List.append_eq_nil_iff.1 hin.symm
            exact this.2
          subst this
          simp
    · have ha : left a = false := by simpa using ha
      obtain ⟨l₁, l₂, hin, hhang, h1, h2, hp⟩ := ihr hr
      refine ⟨inorder l ++ a :: l₁, l₂, ?_, ?_, ?_, h2, fun p => ?_⟩
      · rw [inorder, hin, List.append_assoc, List.cons_append]
      · rw [hang, if_neg (by simp [ha]), inorder, hhang, List.append_assoc, List.cons_append]
      · intro b hb
        rw [List.mem_append, List.mem_cons] at hb
        rcases hb with hb | rfl | hb
        · by_contra hne
          have := hlr b hb a (by simp) (by simpa using hne)
          rw [ha] at this
          cases this
        · exact ha
        · exact h1 b hb
      · rw [place, ha]
        simp only [Bool.false_eq_true, if_false]
        cases hpr : place left r with
        | some q =>
          have := hp p
          rw [hpr] at this
          rw [Option.or_some]
          refine ⟨this.1, fun h => ?_⟩
          rw [List.getLast?_append, List.getLast?_cons, this.2 h]
          rfl
        | none =>
          have hnil : r = .nil := by
            cases r with
            | nil => rfl
            | node b l' r' =>
              rw [place] at hpr
              split at hpr <;> simp at hpr
          subst hnil
          have : l₁ = [] := (List.append_eq_nil_iff.1 hin.symm).1
          subst this
          simp

omit [DecidableEq α] in
theorem place_isSome {left : α → Bool} {t : BinaryTree α} (h : t ≠ .nil) : (place left t).isSome := by
  cases t with
  | nil => exact absurd rfl h
  | node a l r =>
    rw [place]
    split <;> simp

/-! ## The bound of a descent -/

omit [DecidableEq α] in
theorem bound_or (left : α → Bool) (t : BinaryTree α) (up : Option α)
    (mono : (inorder t).Pairwise fun a b => left a = true → left b = true) :
    bound left up t = ((inorder t).find? left).or up := by
  induction t generalizing up with
  | nil => rfl
  | node a l r ihl ihr =>
    rw [inorder, List.pairwise_append, List.pairwise_cons] at mono
    obtain ⟨hl, ⟨-, hr⟩, hlr⟩ := mono
    rw [bound, inorder, List.find?_append, List.find?_cons]
    cases ha : left a with
    | true =>
      rw [if_pos rfl, ihl _ hl]
      cases (inorder l).find? left <;> rfl
    | false =>
      have none_left : (inorder l).find? left = none := List.find?_eq_none.2 fun b hb hbl => by
        rw [hlr b hb a List.mem_cons_self hbl] at ha
        cases ha
      rw [if_neg (by simp), ihr _ hr, none_left]
      rfl

omit [DecidableEq α] in
/-- **The bound is the first value that is not passed.** -/
theorem bound_inorder (left : α → Bool) (t : BinaryTree α)
    (mono : (inorder t).Pairwise fun a b => left a = true → left b = true) :
    bound left none t = (inorder t).find? left := by
  rw [bound_or left t none mono, Option.or_none]

/-! ## On the right of the last -/

theorem linkRight_of_not_mem {p x : α} {t : BinaryTree α} (h : p ∉ inorder t) : linkRight p x t = t := by
  induction t with
  | nil => rfl
  | node a l r ihl ihr =>
    rw [inorder, List.mem_append, List.mem_cons, not_or, not_or] at h
    rw [linkRight, if_neg (Ne.symm h.2.1), ihl h.1, ihr h.2.2]

/-- **On the right of the last node a value comes last.** -/
theorem inorder_linkRight {p x : α} {t : BinaryTree α} (nodup : (inorder t).Nodup) (hp : (inorder t).getLast? = some p) :
    inorder (linkRight p x t) = inorder t ++ [x] := by
  induction t with
  | nil => cases hp
  | node a l r _ ihr =>
    rw [inorder, List.nodup_append, List.nodup_cons] at nodup
    rw [inorder, List.getLast?_append, List.getLast?_cons] at hp
    cases hr : (inorder r).getLast? with
    | none =>
      rw [hr] at hp
      obtain rfl : a = p := by simpa using hp
      have hnil := inorder_eq_nil.1 (List.getLast?_eq_none_iff.1 hr)
      subst hnil
      rw [linkRight, if_pos rfl]
      simp [inorder]
    | some b =>
      rw [hr] at hp
      obtain rfl : b = p := by simpa using hp
      have hb := List.mem_of_getLast? hr
      have hab : a ≠ b := fun h => nodup.2.1.1 (h ▸ hb)
      have hbl : b ∉ inorder l := fun h => nodup.2.2 b h b (List.mem_cons_of_mem _ hb) rfl
      rw [linkRight, if_neg hab, linkRight_of_not_mem hbl, inorder, inorder, ihr nodup.2.1.2 hr]
      simp

/-! ## Next and previous -/

theorem nextFrom_of_not_mem {x : α} {t : BinaryTree α} (h : x ∉ inorder t) (up : Option α) : nextFrom x up t = none := by
  induction t generalizing up with
  | nil => rfl
  | node a l r ihl ihr =>
    rw [inorder, List.mem_append, List.mem_cons, not_or, not_or] at h
    rw [nextFrom, if_neg (Ne.symm h.2.1), ihl h.1, ihr h.2.2]
    rfl

omit [DecidableEq α] in
/-- A value stands at one place of a sequence without repetitions. -/
theorem split_unique {x : α} {l₁ l₂ k₁ k₂ : List α} (nodup : (l₁ ++ x :: l₂).Nodup)
    (h : l₁ ++ x :: l₂ = k₁ ++ x :: k₂) : l₁ = k₁ ∧ l₂ = k₂ := by
  rw [List.nodup_append, List.nodup_cons] at nodup
  have h₁ : x ∉ l₁ := fun hx => nodup.2.2 x hx x List.mem_cons_self rfl
  have := (List.append_cons_inj_of_notMem h₁ nodup.2.1.1).1 h
  exact ⟨this.1, this.2.2⟩

theorem nextFrom_inorder {x : α} {t : BinaryTree α} {l₁ l₂ : List α} (nodup : (inorder t).Nodup)
    (ht : inorder t = l₁ ++ x :: l₂) (up : Option α) : nextFrom x up t = l₂.head?.or up := by
  induction t generalizing l₁ l₂ up with
  | nil =>
    rw [inorder] at ht
    simp at ht
  | node a l r ihl ihr =>
    rw [inorder] at ht nodup
    have hparts := nodup
    rw [List.nodup_append, List.nodup_cons] at hparts
    by_cases ha : a = x
    · subst ha
      obtain ⟨-, rfl⟩ := split_unique nodup ht
      rw [nextFrom, if_pos rfl, first_inorder]
    · rw [nextFrom, if_neg ha]
      have hx : x ∈ inorder l ++ a :: inorder r := by rw [ht]; simp
      rw [List.mem_append, List.mem_cons] at hx
      rcases hx with hx | hx | hx
      · obtain ⟨k₁, k₂, hk⟩ := List.append_of_mem hx
        rw [ihl hparts.1 hk]
        rw [hk, List.append_assoc, List.cons_append] at ht nodup
        obtain ⟨-, rfl⟩ := split_unique nodup ht
        cases k₂ <;> rfl
      · exact absurd hx.symm ha
      · have hxl : x ∉ inorder l := fun h => hparts.2.2 x h x (List.mem_cons_of_mem _ hx) rfl
        obtain ⟨k₁, k₂, hk⟩ := List.append_of_mem hx
        rw [nextFrom_of_not_mem hxl, Option.none_or, ihr hparts.2.1.2 hk]
        rw [hk, ← List.cons_append, ← List.append_assoc] at ht nodup
        obtain ⟨-, rfl⟩ := split_unique nodup ht
        rfl

/-- **The next node is the next in the sequence.** -/
theorem next_inorder {x : α} {t : BinaryTree α} {l₁ l₂ : List α} (nodup : (inorder t).Nodup)
    (ht : inorder t = l₁ ++ x :: l₂) : next t x = l₂.head? := by
  rw [next, nextFrom_inorder nodup ht, Option.or_none]

/-- The tree the other way round. -/
def mirror : BinaryTree α → BinaryTree α
  | .nil => .nil
  | .node a l r => .node a (mirror r) (mirror l)

omit [DecidableEq α] in
theorem inorder_mirror (t : BinaryTree α) : inorder (mirror t) = (inorder t).reverse := by
  induction t with
  | nil => rfl
  | node a l r ihl ihr =>
    rw [mirror, inorder, inorder, ihl, ihr]
    simp

omit [DecidableEq α] in
theorem first_mirror (t : BinaryTree α) : first (mirror t) = last t := by
  rw [first_inorder, last_inorder, inorder_mirror, List.head?_reverse]

theorem nextFrom_mirror (x : α) (up : Option α) (t : BinaryTree α) : nextFrom x up (mirror t) = prevFrom x up t := by
  induction t generalizing up with
  | nil => rfl
  | node a l r ihl ihr => rw [mirror, nextFrom, prevFrom, first_mirror, ihl, ihr]

/-- **The previous node is the one before in the sequence.** -/
theorem prev_inorder {x : α} {t : BinaryTree α} {l₁ l₂ : List α} (nodup : (inorder t).Nodup)
    (ht : inorder t = l₁ ++ x :: l₂) : prev t x = l₁.getLast? := by
  have hm : inorder (mirror t) = l₂.reverse ++ x :: l₁.reverse := by
    rw [inorder_mirror, ht]
    simp
  rw [prev, ← nextFrom_mirror, nextFrom_inorder (by rw [inorder_mirror]; exact List.nodup_reverse.2 nodup) hm,
    Option.or_none, List.head?_reverse]

/-! ## No rebalancing -/

/-- The tree that goes right only. -/
def spine : List α → BinaryTree α
  | [] => .nil
  | a :: l => .node a .nil (spine l)

omit [DecidableEq α] in
theorem inorder_spine (l : List α) : inorder (spine l) = l := by
  induction l with
  | nil => rfl
  | cons a l ih => rw [spine, inorder, ih, inorder, List.nil_append]

variable (α) in
/-- Leaves a tree as it is, and takes a value out by building a new one. -/
def unbalanced : Balance α where
  insertColor := fun _ t => t
  erase := fun x t => spine ((inorder t).erase x)
  insertColor_inorder := fun _ _ => rfl
  erase_inorder := fun _ _ _ _ => inorder_spine _

end InorderTree
