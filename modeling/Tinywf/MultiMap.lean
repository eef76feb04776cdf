import Tinywf.Entries
import Mathlib.Data.List.AList
/-!
# MultiMap — maps filled entry by entry

A map of lists that takes every entry at the end of its key's list (`pushAll`), and a map that takes the first entry
of each key (`emplaceAll`): what a look-up finds in either is said by `Entries.valuesOf`.  Keys may be renamed
(`mapKeys`) by what undoes the way they were written.
-/
namespace MultiMap

open Entries

variable {K V : Type*} [DecidableEq K]

abbrev Map (K V : Type*) := AList fun _ : K => V

/-- `m[k].emplace_back(v)`. -/
def push (m : Map K (List V)) (k : K) (v : V) : Map K (List V) := m.insert k ((m.lookup k).getD [] ++ [v])

def pushAll (m : Map K (List V)) (l : List (K × V)) : Map K (List V) := l.foldl (fun m e => push m e.1 e.2) m

/-- `m.emplace(k, v)`. -/
def emplace (m : Map K V) (k : K) (v : V) : Map K V := if k ∈ m then m else m.insert k v

def emplaceAll (m : Map K V) (l : List (K × V)) : Map K V := l.foldl (fun m e => emplace m e.1 e.2) m

/-- The list that stands under `k` when the entries are grouped by their keys. -/
def group (l : List (K × V)) (k : K) : Option (List V) := if valuesOf k l = [] then none else some (valuesOf k l)

theorem group_isSome {l : List (K × V)} {k : K} : (group l k).isSome ↔ ∃ e ∈ l, e.1 = k := by
  unfold group
  have hnil : valuesOf k l = [] ↔ ∀ e ∈ l, e.1 ≠ k := by rw [valuesOf_eq_nil, nextOf_none]
  split
  · rename_i h
    refine ⟨fun hs => (by cases hs), fun he => ?_⟩
    obtain ⟨e, he, hk⟩ := he
    exact absurd hk (hnil.1 h e he)
  · rename_i h
    refine ⟨fun _ => ?_, fun _ => rfl⟩
    by_contra hno
    exact h (hnil.2 fun e he hk => hno ⟨e, he, hk⟩)

theorem pushAll_lookup (m : Map K (List V)) (l : List (K × V)) (k : K) : (pushAll m l).lookup k =
    if valuesOf k l = [] then m.lookup k else some ((m.lookup k).getD [] ++ valuesOf k l) := by
  induction l generalizing m with
  | nil => rfl
  | cons e l ih =>
    have hcons : pushAll m (e :: l) = pushAll (push m e.1 e.2) l := rfl
    rw [hcons, ih, valuesOf_cons]
    by_cases he : e.1 = k
    · subst he
      rw [if_pos rfl, if_neg (List.cons_ne_nil _ _), push, AList.lookup_insert, Option.getD_some, List.append_assoc]
      split
      · rename_i hnil
        rw [hnil]
      · rfl
    · rw [if_neg he, push, AList.lookup_insert_ne (Ne.symm he)]

/-- **What the grouped entries hold.** -/
theorem pushAll_empty (l : List (K × V)) (k : K) : (pushAll ∅ l).lookup k = group l k := by
  rw [pushAll_lookup]
  rfl

theorem emplaceAll_lookup (m : Map K V) (l : List (K × V)) (k : K) :
    (emplaceAll m l).lookup k = (m.lookup k).or (valuesOf k l).head? := by
  induction l generalizing m with
  | nil => rw [valuesOf_nil, List.head?_nil, Option.or_none]; rfl
  | cons e l ih =>
    have hcons : emplaceAll m (e :: l) = emplaceAll (emplace m e.1 e.2) l := rfl
    rw [hcons, ih, valuesOf_cons, emplace]
    by_cases he : e.1 = k
    · subst he
      rw [if_pos rfl, List.head?_cons]
      split
      · rename_i hm
        obtain ⟨v, hv⟩ := Option.isSome_iff_exists.1 (AList.lookup_isSome.2 hm)
        rw [hv]
        rfl
      · rename_i hm
        rw [AList.lookup_insert, AList.lookup_eq_none.2 hm]
        rfl
    · rw [if_neg he]
      split
      · rfl
      · rw [AList.lookup_insert_ne (Ne.symm he)]

theorem emplaceAll_empty (l : List (K × V)) (k : K) : (emplaceAll ∅ l).lookup k = (valuesOf k l).head? := by
  rw [emplaceAll_lookup]
  rfl

/-! ## Other names for the keys -/

section
variable {W : Type*} (f : K → K) (g : V → W)

/-- Every key and every value read anew. -/
def mapKeys (m : Map K V) : Map K W := (m.entries.map fun e => ⟨f e.1, g e.2⟩).toAList

theorem dlookup_map_keys {w : K → K} {l : List ((_ : K) × V)} (undo : ∀ e ∈ l, w (f e.1) = e.1) (back : ∀ k, f (w k) = k)
    (k : K) : (l.map fun e => (⟨f e.1, g e.2⟩ : (_ : K) × W)).dlookup k = (l.dlookup (w k)).map g := by
  induction l with
  | nil => rfl
  | cons e l ih =>
    obtain ⟨he, hl⟩ := List.forall_mem_cons.1 undo
    obtain ⟨a, v⟩ := e
    rw [List.map_cons]
    by_cases hk : k = f a
    · subst hk
      rw [List.dlookup_cons_eq, show w (f a) = a from he, List.dlookup_cons_eq]
      rfl
    · have hne : w k ≠ a := fun h => hk (by rw [← h, back])
      rw [List.dlookup_cons_ne _ _ hk, List.dlookup_cons_ne _ _ hne, ih hl]

/-- **Keys written by `w` and read by `f`** are found under their own names. -/
theorem mapKeys_lookup {w : K → K} {m : Map K V} (written : ∀ k ∈ m, w (f k) = k) (back : ∀ k, f (w k) = k) (k : K) :
    (mapKeys f g m).lookup k = (m.lookup (w k)).map g := by
  rw [mapKeys, AList.lookup_to_alist]
  exact dlookup_map_keys f g (fun e he => written e.1 (AList.mem_keys.2 (List.mem_keys_of_mem he))) back k

end

/-- Grouping entries whose keys and values are written by functions, the first with an inverse. -/
theorem group_map {W : Type*} {w : K → K} {h : V → W} (inj : Function.Injective w) (l : List (K × V)) (k : K) :
    group (l.map fun e => (w e.1, h e.2)) (w k) = (group l k).map (List.map h) := by
  have hvalues : valuesOf (w k) (l.map fun e => (w e.1, h e.2)) = (valuesOf k l).map h := by
    induction l with
    | nil => rfl
    | cons e l ih =>
      rw [List.map_cons, valuesOf_cons, valuesOf_cons, ih]
      by_cases he : e.1 = k
      · rw [if_pos he, if_pos (congrArg w he), List.map_cons]
      · rw [if_neg he, if_neg fun hw => he (inj hw)]
  unfold group
  simp only [hvalues, List.map_eq_nil_iff]
  split <;> rfl

end MultiMap
