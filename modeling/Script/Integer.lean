/-!
# Integers

The integers of the language are the whole numbers of 64 bits with sign. Arithmetic on them is
done on exact whole numbers and brought back by `Integer.ofInt?`, so it never wraps round: a result
is either exact or absent.

* `Integer.ofInt?_eq_some_iff`: a number comes back exactly if it is the value of an integer.
-/

namespace Script

/-- An integer of the language: a whole number from -2^63 to 2^63 - 1. -/
abbrev Integer := Int64

namespace Integer

/-- The greatest integer. -/
def greatest : Int := 9223372036854775807

/-- The integer of a whole number, if the number is in range. -/
def ofInt? (n : Int) : Option Integer :=
  if -greatest - 1 ≤ n ∧ n ≤ greatest then some (Int64.ofInt n) else none

/-- An integer in decimal digits, with a minus sign if it is negative. -/
def text (n : Integer) : String :=
  toString (Int64.toInt n)

/-- **Only numbers in range come back, and they come back exactly.** -/
theorem ofInt?_eq_some_iff {n : Int} {v : Integer} : ofInt? n = some v ↔ Int64.toInt v = n := by
  have hlow : -9223372036854775808 ≤ Int64.toInt v := Int64.le_toInt v
  have hhigh : Int64.toInt v ≤ 9223372036854775807 := Int64.toInt_le v
  unfold ofInt? greatest
  split
  · next h =>
    rw [Option.some.injEq]
    constructor
    · rintro rfl
      exact Int64.toInt_ofInt_of_le (by omega) (by omega)
    · rintro rfl
      exact Int64.ofInt_toInt v
  · next h =>
    constructor
    · intro h'
      cases h'
    · intro h'
      omega

end Integer

end Script
