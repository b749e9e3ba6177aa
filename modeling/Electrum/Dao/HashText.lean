import Electrum.Dao.Metadata

/-!
# Hashes as bytes and as text

The bytes of a hash spell it.  The metadata of governance transactions refer to objects by texts
that `uint256S` reads; the text of a payment request is read after a second `0x`, which hides a
blank or another `0x` at its
start. -/

namespace Electrum

open List

variable {n : UInt256}

theorem toBytes_lt : ∀ b ∈ n.toBytes, b < 256 := by
  intro b hb
  obtain ⟨i, -, rfl⟩ := mem_map.mp hb
  exact Nat.mod_lt _ (by decide)

/-- The lowest bytes of a number spell what is left of it. -/
theorem foldr_bytes (k : Nat) (n : Nat) :
    ((range k).map fun i => n / 256 ^ i % 256).foldr (fun b n => b + 256 * n) 0 = n % 256 ^ k := by
  induction k generalizing n with
  | zero => rw [pow_zero, Nat.mod_one]; rfl
  | succ k ih =>
    have hTail : (range k).map (fun i => n / 256 ^ (i + 1) % 256) =
        (range k).map fun i => n / 256 / 256 ^ i % 256 := by
      refine map_congr_left fun i _ => ?_
      rw [Nat.div_div_eq_div_mul, pow_succ, Nat.mul_comm]
    rw [range_succ_eq_map, map_cons, map_map]
    show n / 256 ^ 0 % 256 + 256 * ((range k).map fun i => n / 256 ^ (i + 1) % 256).foldr _ 0 = _
    rw [hTail, ih, pow_zero, Nat.div_one, pow_succ, Nat.mul_comm (256 ^ k), Nat.mod_mul]

/-! ## A second `0x` -/

/-- The text starts neither with a blank nor with `0x`. -/
def startsPlain (str : String) : Bool :=
  match str.toList with
  | [] => true
  | ch :: rest => !(ch.isWhitespace || ch == '\u000b' || ch == '\u000c') &&
    !(ch == '0' && rest.head?.any fun x => x == 'x' || x == 'X')

theorem hexValue_blank {ch : Char}
    (h : (ch.isWhitespace || ch == '\u000b' || ch == '\u000c') = true) : hexValue ch = none := by
  simp only [Char.isWhitespace, Bool.or_eq_true, decide_eq_true_eq, beq_iff_eq] at h
  rcases h with ((((rfl | rfl) | rfl) | rfl) | rfl) | rfl <;> decide

/-- What follows a `0x` is read as it stands. -/
theorem setHex_prefixed (WIDTH : Nat) (str : String) : setHex WIDTH ("0x" ++ str) =
    let digits := (str.toList.map hexValue).takeWhile (·.isSome)
    let bytes := (bytesOfNibbles (digits.reduceOption.reverse)).take WIDTH
    bytes ++ replicate (WIDTH - bytes.length) 0 := by
  have hChars : ("0x" ++ str).toList = '0' :: 'x' :: str.toList := by
    rw [String.toList_append]
    rfl
  rw [setHex, hChars]
  rfl

variable {str : String}

theorem uint256S_prefixed (h : startsPlain str = true) : uint256S ("0x" ++ str) = uint256S str := by
  rw [uint256S, uint256S, setHex_prefixed, setHex]
  unfold startsPlain at h
  split at h
  · rename_i hStr
    rw [hStr]
    rfl
  · rename_i ch rest hStr
    obtain ⟨hBlank, hX⟩ := Bool.and_eq_true_iff.mp h
    rw [hStr, dropWhile_cons_of_neg (by simpa using hBlank)]
    split
    · rename_i hEq
      cases hEq
      rw [if_neg]
      simpa using hX
    · rfl

/-- **A second `0x`** hides a blank and another `0x` behind it: the digits end there. -/
theorem uint256S_hidden (h : startsPlain str = false) : uint256S ("0x" ++ str) = 0 := by
  rw [uint256S, setHex_prefixed]
  unfold startsPlain at h
  split at h
  · cases h
  · rename_i ch rest hStr
    rw [hStr]
    rcases Bool.and_eq_false_iff.mp h with hBlank | hSecond
    · have hBlank : (ch.isWhitespace || ch == '\u000b' || ch == '\u000c') = true := by
        simpa [or_iff_not_imp_left] using hBlank
      simp only [map_cons, hexValue_blank hBlank]
      rfl
    · cases rest with
      | nil => simp at hSecond
      | cons x rest =>
        have hSecond : ch = '0' ∧ (x = 'x' ∨ x = 'X') := by
          simpa [or_iff_not_imp_left] using hSecond
        obtain ⟨rfl, hX⟩ := hSecond
        have hNone : hexValue x = none := by
          rcases hX with rfl | rfl <;> decide
        simp only [map_cons, hNone]
        rfl

/-- A `0x` put in front of a text changes what is read, unless the text starts plain. -/
theorem uint256S_prefixed_iff :
    uint256S ("0x" ++ str) = uint256S str ↔ startsPlain str = true ∨ uint256S str = 0 := by
  cases h : startsPlain str with
  | true => simp [uint256S_prefixed h]
  | false => simp [uint256S_hidden h, eq_comm]

end Electrum
