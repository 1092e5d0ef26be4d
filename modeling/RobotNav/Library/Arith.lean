/-
The arithmetic a program that computes in doubles is read in.

`Arith` asks only what comparisons of finite doubles need, that they are a linear
order, and no law of any operation, so that what is proved for every `Arith`
holds of rounded arithmetic too.  Exact arithmetic is the instance of an ordered
field with floors, `ℚ` where a definition is to be run.
-/
import Mathlib.Algebra.Order.Floor.Defs
import Mathlib.Algebra.Order.Field.Basic
import Mathlib.Algebra.Order.Group.Abs

namespace RobotNav

class Arith (K : Type) extends LinearOrder K, Add K, Sub K, Mul K, Div K, Neg K, IntCast K where
  floor : K → ℤ
  /-- Conversion to an integer, towards zero. -/
  trunc : K → ℤ

-- a type with operations of its own keeps them
attribute [instance (50)] Arith.toLinearOrder Arith.toAdd Arith.toSub Arith.toMul Arith.toDiv
  Arith.toNeg Arith.toIntCast

instance {K : Type} [Field K] [LinearOrder K] [FloorRing K] : Arith K where
  floor := fun x => ⌊x⌋
  trunc := fun x => if 0 ≤ x then ⌊x⌋ else ⌈x⌉

variable {K : Type} [Arith K]

/-- A literal; `ratio p q` is a decimal fraction. -/
def lit (p : ℤ) : K := (p : K)

def ratio (p q : ℤ) : K := (p : K) / (q : K)

def fabs (x : K) : K := if x < lit 0 then -x else x

/-- The axes of space are numerals of `Fin 3`. -/
instance axes : NeZero 3 := ⟨by omega⟩

/-! ## In an ordered field -/

section

variable {F : Type} [Field F] [LinearOrder F] [FloorRing F]

theorem lit_eq (p : ℤ) : (lit p : F) = p := rfl

theorem ratio_eq (p q : ℤ) : (ratio p q : F) = p / q := rfl

theorem fabs_eq_abs [IsStrictOrderedRing F] (x : F) : fabs x = |x| := by
  rw [fabs, lit_eq, Int.cast_zero]
  by_cases hx : x < 0
  · rw [if_pos hx, abs_of_neg hx]
  · rw [if_neg hx, abs_of_nonneg (not_lt.mp hx)]

end

end RobotNav
