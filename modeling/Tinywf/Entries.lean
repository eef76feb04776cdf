import Mathlib.Data.List.Induction
import Mathlib.Tactic.Common
/-!
# Entries — ordered lists of entries with repeated keys

A list of entries, each a key and a value, grown at its end and edited at the first entry of a key (`setFirst`).  `nextOf` is
one step of a scan for a key, `valuesOf` everything that scan after scan finds (`valuesOf_eq`).  Entries may write to a
register; one that is written when an entry is replaced still holds what the list writes under a condition on the list
alone (`replaces_iff`).
-/
namespace Entries

variable {K V : Type*} [DecidableEq K] {k : K} {v : V} {l m : List (K × V)}

/-- The first entry of `k` gets the value `v`; where there is none, one is appended. -/
def setFirst (k : K) (v : V) : List (K × V) → List (K × V)
  | [] => [(k, v)]
  | e :: l => if e.1 = k then (k, v) :: l else e :: setFirst k v l

/-- The value of the first entry of `k`, and the entries behind it. -/
def nextOf (k : K) : List (K × V) → Option (V × List (K × V))
  | [] => none
  | e :: l => if e.1 = k then some (e.2, l) else nextOf k l

/-- The values of `k`, in order. -/
def valuesOf (k : K) (l : List (K × V)) : List V := (l.filter (fun e => e.1 = k)).map Prod.snd

theorem setFirst_none (h : ∀ e ∈ l, e.1 ≠ k) : setFirst k v l = l ++ [(k, v)] := by
  induction l with
  | nil => rfl
  | cons e l ih =>
    obtain ⟨he, hl⟩ := List.forall_mem_cons.1 h
    rw [setFirst, if_neg he, ih hl, List.cons_append]

/-- A scan finds what `find?` finds. -/
theorem nextOf_fst (k : K) (l : List (K × V)) :
    (nextOf k l).map Prod.fst = (l.find? (fun e => e.1 = k)).map Prod.snd := by
  induction l with
  | nil => rfl
  | cons e l ih =>
    rw [nextOf, List.find?_cons]
    split
    · rename_i he
      rw [decide_eq_true he]
      rfl
    · rename_i he
      rw [decide_eq_false he]
      exact ih

theorem nextOf_none : nextOf k l = none ↔ ∀ e ∈ l, e.1 ≠ k := by
  induction l with
  | nil => exact ⟨fun _ _ h => (by cases h), fun _ => rfl⟩
  | cons e l ih =>
    rw [nextOf, List.forall_mem_cons]
    split
    · rename_i he
      exact ⟨fun h => (by cases h), fun h => absurd he h.1⟩
    · rename_i he
      rw [ih]
      exact ⟨fun h => ⟨he, h⟩, And.right⟩

/-- A scan stops at the first entry of its key. -/
theorem nextOf_some : nextOf k l = some (v, m) ↔ ∃ a, l = a ++ (k, v) :: m ∧ ∀ e ∈ a, e.1 ≠ k := by
  induction l with
  | nil =>
    refine ⟨fun h => (by cases h), fun h => ?_⟩
    obtain ⟨a, ha, -⟩ := h
    exact absurd ha (by simp)
  | cons e l ih =>
    rw [nextOf]
    split
    · rename_i he
      constructor
      · intro h
        cases h
        exact ⟨[], by rw [← he]; rfl, fun _ h => by cases h⟩
      · rintro ⟨a, ha, hno⟩
        rcases a with _ | ⟨b, a⟩
        · cases ha
          rfl
        · cases ha
          exact absurd he (hno e List.mem_cons_self)
    · rename_i he
      rw [ih]
      constructor
      · rintro ⟨a, rfl, hno⟩
        exact ⟨e :: a, rfl, List.forall_mem_cons.2 ⟨he, hno⟩⟩
      · rintro ⟨a, ha, hno⟩
        rcases a with _ | ⟨b, a⟩
        · cases ha
          exact absurd rfl he
        · cases ha
          exact ⟨a, rfl, fun x hx => hno x (List.mem_cons_of_mem _ hx)⟩

/-! ## The values of a key -/

theorem valuesOf_nil : valuesOf k ([] : List (K × V)) = [] := rfl

theorem valuesOf_cons (e : K × V) :
    valuesOf k (e :: l) = if e.1 = k then e.2 :: valuesOf k l else valuesOf k l := by
  unfold valuesOf
  rw [List.filter_cons]
  by_cases h : e.1 = k
  · rw [if_pos (decide_eq_true h), if_pos h, List.map_cons]
  · rw [if_neg (by simp [h]), if_neg h]

theorem valuesOf_append : valuesOf k (l ++ m) = valuesOf k l ++ valuesOf k m := by
  unfold valuesOf
  rw [List.filter_append, List.map_append]

/-- The values of a key are what scan after scan finds. -/
theorem valuesOf_eq (k : K) (l : List (K × V)) :
    valuesOf k l = match nextOf k l with
      | none => []
      | some (v, m) => v :: valuesOf k m := by
  induction l with
  | nil => rfl
  | cons e l ih =>
    rw [valuesOf_cons, nextOf]
    split
    · rfl
    · exact ih

theorem valuesOf_eq_nil : valuesOf k l = [] ↔ nextOf k l = none := by
  rw [valuesOf_eq]
  cases nextOf k l with
  | none => exact ⟨fun _ => rfl, fun _ => rfl⟩
  | some e => exact ⟨fun h => (by cases h), fun h => (by cases h)⟩

theorem valuesOf_head : (valuesOf k l).head? = (nextOf k l).map Prod.fst := by
  rw [valuesOf_eq]
  cases nextOf k l with
  | none => rfl
  | some e => rfl

/-! ## What the entries write

`e` gives what an entry writes to a register, `none` for nothing. -/

variable {α β : Type*} (e : α → Option β)

/-- The register behind the entries. -/
def written (b : β) (l : List α) : β := l.foldl (fun b a => (e a).getD b) b

/-- The last write of the entries. -/
def lastWrite (l : List α) : Option β := (l.filterMap e).getLast?

theorem written_append (b : β) (l m : List α) : written e b (l ++ m) = written e (written e b l) m := List.foldl_append

theorem written_eq (b : β) (l : List α) : written e b l = (lastWrite e l).getD b := by
  induction l using List.reverseRecOn with
  | nil => rfl
  | append_singleton l a ih =>
    have hlast : lastWrite e (l ++ [a]) = (l.filterMap e ++ [a].filterMap e).getLast? := by
      rw [lastWrite, List.filterMap_append]
    rw [written_append, ih, hlast]
    cases ha : e a with
    | none =>
      rw [List.filterMap_cons_none ha, List.filterMap_nil, List.append_nil, written, List.foldl_cons, ha]
      rfl
    | some v =>
      rw [List.filterMap_cons_some ha, List.filterMap_nil, List.getLast?_concat, written, List.foldl_cons, ha]
      rfl

/-- What an entry between others leaves. -/
theorem written_between (b : β) (l : List α) (a : α) (m : List α) :
    written e b (l ++ a :: m) = (lastWrite e m).getD ((e a).getD ((lastWrite e l).getD b)) := by
  rw [written_append, written_eq e b l, ← written_eq e _ m]
  rfl

/-- An entry `old` between `l` and `m` may become `new`, which then writes at once: the write of `new` is the last one's
behind it; or, where `new` writes nothing, what `old` wrote is written over, or was there before. -/
def Replaces (b : β) (l : List α) (old new : α) (m : List α) : Prop :=
  match e new with
  | some v => ∀ w, lastWrite e m = some w → w = v
  | none => (lastWrite e m).isSome ∨ ∀ w, e old = some w → w = (lastWrite e l).getD b

/-- **A register written at once is the one that the entries write, exactly when the entry may be replaced.** -/
theorem replaces_iff (b : β) (l : List α) (old new : α) (m : List α) :
    (e new).getD (written e b (l ++ old :: m)) = written e b (l ++ new :: m) ↔ Replaces e b l old new m := by
  rw [written_between, written_between]
  unfold Replaces
  cases lastWrite e m with
  | none =>
    cases e new with
    | some v => exact ⟨fun _ w h => (by cases h), fun _ => rfl⟩
    | none =>
      simp only [Option.getD_none, Option.isSome_none, Bool.false_eq_true, false_or]
      cases e old with
      | none => exact ⟨fun _ w h => (by cases h), fun _ => rfl⟩
      | some u => exact ⟨fun h w hw => by cases hw; exact h, fun h => h u rfl⟩
  | some w =>
    cases e new with
    | none => exact ⟨fun _ => .inl rfl, fun _ => rfl⟩
    | some v => exact ⟨fun h w' hw => by cases hw; exact h.symm, fun h => (h w rfl).symm⟩

end Entries
