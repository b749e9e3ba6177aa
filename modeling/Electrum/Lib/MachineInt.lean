import Mathlib

/-!
# Fixed-width conversions

Signed quantities are `Int` and unsigned ones `Nat`; a conversion of the C++ program that
can change a value is written out with the functions below.
-/

namespace Electrum

/-- Conversion of a signed value to `uint64_t`. -/
def toU64 (z : Int) : Nat := (z % (2 ^ 64 : Int)).toNat

/-- Conversion of a `uint64_t` to `int64_t`. -/
def toI64 (n : Nat) : Int :=
  let m : Nat := n % 2 ^ 64
  if m < 2 ^ 63 then (m : Int) else (m : Int) - 2 ^ 64

/-- Subtraction of `uint64_t` values, wrapping around at `2^64`. -/
def sub64 (a b : Nat) : Nat := (a + (2 ^ 64 - b % 2 ^ 64)) % 2 ^ 64

/-- Subtraction of `unsigned int` values, wrapping around at `2^32`. -/
def sub32 (a b : Nat) : Nat := (a + (2 ^ 32 - b % 2 ^ 32)) % 2 ^ 32

theorem sub64_of_le {a b : Nat} (hle : b ≤ a) (ha : a < 2 ^ 64) : sub64 a b = a - b := by
  unfold sub64
  omega

end Electrum
