import Mathlib.Tactic.Common
/-!
# Iovec — a list of pieces of memory, taken from the front

An `Iovec` is a piece of memory, and a list of them stands for the bytes of its pieces one after the other (`gather`).
Taking `n` bytes off the front (`consume`) drops the pieces used up and moves the one the bytes end in: what is left
stands for the bytes but the first `n` (`gather_consume`), and begins with a piece that is not empty (`consume_head`).
-/
namespace CLib

structure Iovec where
  base : Nat
  len : Nat
  deriving DecidableEq

namespace Iovec

variable (mem : Nat → UInt8)

def bytes (v : Iovec) : List UInt8 := (List.range v.len).map fun i => mem (v.base + i)

def gather (vs : List Iovec) : List UInt8 := vs.flatMap (bytes mem)

/-- The piece without its first `n` bytes. -/
def advance (v : Iovec) (n : Nat) : Iovec := { base := v.base + n, len := v.len - n }

/-- Take `n` bytes off the front. -/
def consume : List Iovec → Nat → List Iovec
  | [], _ => []
  | v :: vs, n => if v.len ≤ n then consume vs (n - v.len) else v.advance n :: vs

variable {mem}

@[simp] theorem bytes_length (v : Iovec) : (v.bytes mem).length = v.len := by simp [bytes]

@[simp] theorem gather_nil : gather mem [] = [] := rfl

@[simp] theorem gather_cons (v : Iovec) (vs : List Iovec) : gather mem (v :: vs) = v.bytes mem ++ gather mem vs := rfl

theorem gather_append (vs ws : List Iovec) : gather mem (vs ++ ws) = gather mem vs ++ gather mem ws :=
  List.flatMap_append

theorem gather_take_begins (vs : List Iovec) (k : Nat) : gather mem (vs.take k) <+: gather mem vs := by
  conv => rhs; rw [← List.take_append_drop k vs]
  rw [gather_append]
  exact List.prefix_append _ _

theorem bytes_advance (v : Iovec) (n : Nat) : (v.advance n).bytes mem = (v.bytes mem).drop n := by
  unfold bytes advance
  apply List.ext_getElem
  · simp
  · intro i h1 h2
    simp [Nat.add_assoc]

/-- **What is left stands for the bytes but the first `n`.** -/
theorem gather_consume : ∀ (vs : List Iovec) (n : Nat), gather mem (consume vs n) = (gather mem vs).drop n
  | [], n => by simp [consume]
  | v :: vs, n => by
    unfold consume
    split
    · rename_i h
      have hb : (v.bytes mem).drop n = [] := List.drop_of_length_le (by rw [bytes_length]; exact h)
      rw [gather_consume vs, gather_cons, List.drop_append, hb, bytes_length, List.nil_append]
    · rename_i h
      rw [gather_cons, gather_cons, bytes_advance, List.drop_append_of_le_length (by rw [bytes_length]; omega)]

/-- What is left begins with a piece that is not empty. -/
theorem consume_head : ∀ (vs : List Iovec) (n : Nat), consume vs n = [] ∨ ∃ v ws, consume vs n = v :: ws ∧ 0 < v.len
  | [], _ => .inl rfl
  | v :: vs, n => by
    unfold consume
    split
    · exact consume_head vs _
    · rename_i h
      exact .inr ⟨_, _, rfl, by simp only [advance]; omega⟩

theorem consume_length : ∀ (vs : List Iovec) (n : Nat), (consume vs n).length ≤ vs.length
  | [], _ => Nat.le_refl _
  | v :: vs, n => by
    unfold consume
    split
    · have := consume_length vs (n - v.len)
      rw [List.length_cons]
      omega
    · exact Nat.le_refl _

/-- A list that begins with a piece that is not empty has bytes. -/
theorem gather_ne_nil {v : Iovec} {vs : List Iovec} (h : 0 < v.len) : gather mem (v :: vs) ≠ [] := by
  intro e
  rw [gather_cons, List.append_eq_nil_iff] at e
  have := congrArg List.length e.1
  rw [bytes_length] at this
  simp at this
  omega

end Iovec

end CLib
