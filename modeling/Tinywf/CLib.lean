import Mathlib.Tactic.Common
import Mathlib.Tactic.Ring
import Mathlib.Data.List.TakeWhile
import Mathlib.Data.List.Induction
import Mathlib.Algebra.BigOperators.Group.List.Basic
import Mathlib.Algebra.Order.Ring.Int
/-!
# CLib — bytes and the C string functions

The characters a text protocol names, and the functions of `ctype.h`, `string.h` and `stdlib.h` as they act on the
bytes of a buffer.  A C string is the bytes before the first NUL; where a function is given a list, the end of the list
stands for the terminator that the caller wrote there.
-/
namespace CLib

abbrev Bytes := List UInt8

abbrev NUL : UInt8 := 0
abbrev HT : UInt8 := 9
abbrev LF : UInt8 := 10
abbrev CR : UInt8 := 13
abbrev SP : UInt8 := 32
abbrev COLON : UInt8 := 58

/-- The bytes of an ASCII literal. -/
def ascii (s : String) : Bytes := s.toList.map (fun c => UInt8.ofNat c.toNat)

/-! ## `ctype.h` in the C locale -/

/-- `(signed char)b <= 0`: NUL, or outside ASCII. -/
def nonPos (b : UInt8) : Bool := b == 0 || decide (128 ≤ b.toNat)

def isBlank (b : UInt8) : Bool := b == SP || b == HT

def isspace (b : UInt8) : Bool := b == SP || decide (9 ≤ b.toNat ∧ b.toNat ≤ 13)

def tolower (b : UInt8) : UInt8 := if 65 ≤ b.toNat ∧ b.toNat ≤ 90 then b + 32 else b

/-- The value of a digit in a base of at most 16. -/
def digitVal (base : Nat) (b : UInt8) : Option Nat :=
  let n := b.toNat
  let v := if 48 ≤ n ∧ n ≤ 57 then some (n - 48)
    else if 97 ≤ n ∧ n ≤ 102 then some (n - 87)
    else if 65 ≤ n ∧ n ≤ 70 then some (n - 55) else none
  v.filter (· < base)

def isDigitOf (base : Nat) (b : UInt8) : Bool := (digitVal base b).isSome

/-! ## `string.h` -/

/-- The C string a buffer holds. -/
def cstr (s : Bytes) : Bytes := s.takeWhile (· != NUL)

def strlen (s : Bytes) : Nat := (cstr s).length

/-- `strchr` on a C string, as the bytes before the character found and the bytes after it. -/
def strchr (c : UInt8) : Bytes → Option (Bytes × Bytes)
  | [] => none
  | b :: s => if b = c then some ([], s) else if b = NUL then none else (strchr c s).map (fun p => (b :: p.1, p.2))

/-- `strncasecmp(a, b, n) == 0`. -/
def strncaseeq : Nat → Bytes → Bytes → Bool
  | 0, _, _ => true
  | n + 1, a :: as, b :: bs => tolower a == tolower b && (a == NUL || strncaseeq n as bs)
  | _ + 1, [], [] => true
  | _ + 1, _, _ => false

/-! ## `strtol` and `atol` -/

def LONG_MAX : Nat := 2 ^ 63 - 1

def digitsVal (base : Nat) (ds : Bytes) : Nat := ds.foldl (fun n d => n * base + (digitVal base d).getD 0) 0

/-- The bytes after the sign, and whether it was a minus. -/
def takeSign : Bytes → Bool × Bytes
  | 45 :: s => (true, s)
  | 43 :: s => (false, s)
  | s => (false, s)

/-- In base 16, `0x` is skipped when a digit follows it. -/
def skipPrefix (base : Nat) : Bytes → Bytes
  | 48 :: x :: d :: s => if base = 16 ∧ tolower x = 120 ∧ isDigitOf 16 d then d :: s else 48 :: x :: d :: s
  | s => s

def clampLong (neg : Bool) (n : Nat) : Int :=
  if neg then -((min n (LONG_MAX + 1) : Nat) : Int) else ((min n LONG_MAX : Nat) : Int)

/-- `strtol(s, &end, base)`: the value and what `end` points to; `none` when no conversion is made (`end == s`). -/
def strtol (base : Nat) (s : Bytes) : Option (Int × Bytes) :=
  let (neg, t) := takeSign (s.dropWhile isspace)
  let t := skipPrefix base t
  let ds := t.takeWhile (isDigitOf base)
  if ds = [] then none else some (clampLong neg (digitsVal base ds), t.drop ds.length)

def atol (s : Bytes) : Int := match strtol 10 s with
  | some (n, _) => n
  | none => 0

end CLib
