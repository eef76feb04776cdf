import Mathlib.Data.List.Sort
/-!
# StdSort — `std::sort`

What the standard says of `std::sort`: given a strict weak order it leaves the values sorted, and says nothing of the
order of equal ones.  If equal values are the same, every `std::sort` gives the same for every order of the values
(`StdSort.sort_perm`).
-/

/-- `less` is what `std::sort` asks for. -/
abbrev StdSort.Orders {α : Type*} (less : α → α → Bool) : Prop := IsStrictWeakOrder α fun a b => less a b = true

/-- **Any `std::sort`**, as what it does to the values. -/
structure StdSort (α : Type*) where
  sort : (α → α → Bool) → List α → List α
  perm : ∀ less l, StdSort.Orders less → (sort less l).Perm l
  sorted : ∀ less l, StdSort.Orders less → (sort less l).Pairwise fun a b => less b a = false

namespace StdSort

variable {α : Type*} {less : α → α → Bool} {l l' : List α}

/-- **Sorting forgets the order of the values**, where those that compare equal are the same. -/
theorem sort_perm (S : StdSort α) (order : Orders less) (ties : ∀ a b, less a b = false → less b a = false → a = b)
    (h : l.Perm l') : S.sort less l = S.sort less l' := by
  have hp : (S.sort less l).Perm (S.sort less l') :=
    (S.perm less l order).trans (h.trans (S.perm less l' order).symm)
  exact hp.eq_of_pairwise (fun a b _ _ hab hba => ties a b hba hab) (S.sorted less l order) (S.sorted less l' order)

theorem sort_singleton (S : StdSort α) (order : Orders less) (a : α) : S.sort less [a] = [a] :=
  List.perm_singleton.1 (S.perm less [a] order)

variable (α) in
/-- Sorting by insertion. -/
def insertion : StdSort α where
  sort := fun less l => l.insertionSort fun a b => less b a = false
  perm := fun _ l _ => List.perm_insertionSort _ l
  sorted := fun less l order => by
    have total : Std.Total fun a b => less b a = false := ⟨fun a b => by
      by_contra h
      rw [not_or, Bool.not_eq_false, Bool.not_eq_false] at h
      exact order.irrefl a (order.trans a b a h.2 h.1)⟩
    have trans : IsTrans α fun a b => less b a = false := ⟨fun a b c hab hbc => by
      by_contra hca
      rw [Bool.not_eq_false] at hca
      have ab : ¬ less a b = true := fun h => by
        rw [order.trans c a b hca h] at hbc
        cases hbc
      have bc : ¬ less b c = true := fun h => by
        rw [order.trans b c a h hca] at hab
        cases hab
      exact (order.incomp_trans a b c ⟨ab, by simp [hab]⟩ ⟨bc, by simp [hbc]⟩).2 hca⟩
    exact List.pairwise_insertionSort _ l

end StdSort
