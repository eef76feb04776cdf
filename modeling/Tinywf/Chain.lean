import Mathlib.Data.List.Nodup
import Mathlib.Logic.Function.Basic
import Mathlib.Tactic.Common
/-!
# Chain — a singly linked list, threaded through cells of memory

`Chained mem link c l`: from the cell `c` on, each cell leads to the next element of `l`, whose own cell is `link` of it,
and the last cell holds nothing.  A chain is read off the memory (`Chained.unique`); it grows at its last cell
(`Chained.append`), shrinks at its first (`Chained.pop`), and does not see what happens elsewhere (`Chained.frame`).
-/
namespace Chain

variable {κ α : Type*}

def Chained (mem : κ → Option α) (link : α → κ) : κ → List α → Prop
  | c, [] => mem c = none
  | c, a :: l => mem c = some a ∧ Chained mem link (link a) l

/-- The cell a chain ends at. -/
def last (link : α → κ) : κ → List α → κ
  | c, [] => c
  | _, a :: l => last link (link a) l

variable {mem mem' : κ → Option α} {link : α → κ} {a : α}

/-- A chain whose first cell holds nothing is empty. -/
theorem Chained.eq_nil {c : κ} {l : List α} (h : Chained mem link c l) (hc : mem c = none) : l = [] := by
  cases l with
  | nil => rfl
  | cons a l =>
    obtain ⟨h, -⟩ := h
    rw [hc] at h
    cases h

/-- **A chain is what the memory says.** -/
theorem Chained.unique : ∀ {c : κ} {l l' : List α}, Chained mem link c l → Chained mem link c l' → l = l'
  | _, _, [], h, h' => h.eq_nil h'
  | _, [], _ :: _, h, h' => (h'.eq_nil h).symm
  | _, a :: l, b :: l', h, h' => by
    have e : a = b := Option.some.inj (h.1.symm.trans h'.1)
    subst e
    rw [h.2.unique h'.2]

theorem Chained.frame : ∀ {c : κ} {l : List α}, Chained mem link c l → mem' c = mem c →
    (∀ a ∈ l, mem' (link a) = mem (link a)) → Chained mem' link c l
  | _, [], h, hc, _ => hc.trans h
  | _, a :: l, h, hc, hl => by
    refine ⟨hc.trans h.1, h.2.frame (hl a List.mem_cons_self) fun b hb => ?_⟩
    exact hl b (List.mem_cons_of_mem a hb)

theorem last_append : ∀ (c : κ) (l : List α) (a : α), last link c (l ++ [a]) = link a
  | _, [], _ => rfl
  | _, b :: l, a => last_append (link b) l a

theorem last_mem (link : α → κ) : ∀ (c : κ) (l : List α), last link c l = c ∨ ∃ a ∈ l, last link c l = link a
  | _, [] => .inl rfl
  | c, b :: l => by
    right
    rcases last_mem link (link b) l with h | ⟨a, ha, h⟩
    · exact ⟨b, List.mem_cons_self, h⟩
    · exact ⟨a, List.mem_cons_of_mem b ha, h⟩

variable [DecidableEq κ]

/-- **A chain grows at its last cell.** -/
theorem Chained.append (ha : mem (link a) = none) : ∀ {c : κ} {l : List α}, Chained mem link c l →
    (∀ b ∈ l, link b ≠ c) → (l.map link).Nodup → link a ≠ c → (∀ b ∈ l, link a ≠ link b) →
    Chained (Function.update mem (last link c l) (some a)) link c (l ++ [a])
  | c, [], _, _, _, hac, _ => by
    refine ⟨Function.update_self .., ?_⟩
    show Function.update mem c (some a) (link a) = none
    rw [Function.update_of_ne hac]
    exact ha
  | c, b :: l, h, hc, hn, hac, hl => by
    rw [List.map_cons, List.nodup_cons] at hn
    have hb : ∀ d ∈ l, link d ≠ link b := fun d hd e => hn.1 (e ▸ List.mem_map_of_mem hd)
    have ih := h.2.append ha hb hn.2 (hl b List.mem_cons_self) fun d hd => hl d (List.mem_cons_of_mem b hd)
    refine ⟨?_, ih⟩
    have hne : c ≠ last link (link b) l := by
      rcases last_mem link (link b) l with e | ⟨d, hd, e⟩
      · rw [e]
        exact (hc b List.mem_cons_self).symm
      · rw [e]
        exact (hc d (List.mem_cons_of_mem b hd)).symm
    show Function.update mem (last link (link b) l) (some a) c = some b
    rw [Function.update_of_ne hne]
    exact h.1

/-- **A chain shrinks at its first cell**, which takes over what the first element's cell holds. -/
theorem Chained.pop {c : κ} {l : List α} (h : Chained mem link c (a :: l)) (hc : ∀ b ∈ a :: l, link b ≠ c) :
    Chained (Function.update mem c (mem (link a))) link c l := by
  cases l with
  | nil =>
    show Function.update mem c (mem (link a)) c = none
    rw [Function.update_self]
    exact h.2
  | cons b l =>
    refine ⟨(Function.update_self ..).trans h.2.1, h.2.2.frame ?_ fun d hd => ?_⟩
    · rw [Function.update_of_ne (hc b (by simp))]
    · rw [Function.update_of_ne (hc d (by simp [hd]))]

end Chain
