import Mathlib

/-!
# Amounts and hashes

An amount (`CAmount`) is an `Int`: the sums of the program are taken not to overflow.
-/

namespace Electrum

def COIN : Int := 100000000

/-- `MAX_MONEY`, the largest signed 64-bit value in this network. -/
def MAX_MONEY : Int := 9223372036854775807

/-- A 256-bit hash, as the number its bytes spell with the first byte in memory the lowest, so that
`operator<`, and with it the order of `std::map<uint256, ...>`, is the order of numbers, and
`UintToArith256` is the identity; `uint256()` is `0`. -/
abbrev UInt256 := Nat

end Electrum
