import Electrum.Lib.ByteStream
import Electrum.Validation.Transaction

/-!
# Compressed outputs

`CTxOutCompressor` and `CScriptCompressor`: how an output stands in the coin database and in
the undo files.  Amounts are packed by their trailing zeros, and the packed form is cut to 64
bits although it can be nine times the amount.  Common scripts have a short form.  The point
arithmetic behind uncompressed public keys is the structure `PubKeyCodec`.

Main results:
* `amountSurvives_iff`, `amount_kept_iff` — the amounts that survive: multiples of ten, and
  those whose packed form has room
* `reads_script`, `reads_txOut` — a stored output is read back
-/

namespace Electrum

open List Option Nat

/-! ## Amounts -/

/-- The loop of `CompressAmount`: trailing zeros, at most `fuel` of them, and the rest. -/
def stripZeros : Nat → Nat → Nat × Nat
  | 0, n => (n, 0)
  | fuel + 1, n =>
    if n % 10 = 0 then
      let r := stripZeros fuel (n / 10)
      (r.1, r.2 + 1)
    else (n, 0)

/-- `CompressAmount` before it is cut to 64 bits. -/
def compressAmountWide (n : Nat) : Nat :=
  if n = 0 then 0
  else
    let (n, e) := stripZeros 9 n
    if e < 9 then 1 + (n / 10 * 9 + n % 10 - 1) * 10 + e else 1 + (n - 1) * 10 + 9

def compressAmount (n : Nat) : Nat := compressAmountWide n % 2 ^ 64

def decompressAmount (x : Nat) : Nat :=
  if x = 0 then 0
  else
    let e := (x - 1) % 10
    let x := (x - 1) / 10
    let n := if e < 9 then x / 9 * 10 + (x % 9 + 1) else x + 1
    n * 10 ^ e % 2 ^ 64

/-- The 64 bits of an amount, and the amount of 64 bits. -/
def amountBits (nValue : Int) : Nat := (nValue % 2 ^ 64).toNat

def bitsAmount (n : Nat) : Int := if n < 2 ^ 63 then n else (n : Int) - 2 ^ 64

/-- The amount is read back as it was written. -/
def amountSurvives (nValue : Int) : Bool :=
  bitsAmount (decompressAmount (compressAmount (amountBits nValue))) == nValue

theorem stripZeros_spec (fuel n : Nat) :
    n = (stripZeros fuel n).1 * 10 ^ (stripZeros fuel n).2 ∧ (stripZeros fuel n).2 ≤ fuel ∧
      ((stripZeros fuel n).2 < fuel → (stripZeros fuel n).1 % 10 ≠ 0) := by
  induction fuel generalizing n with
  | zero => simp [stripZeros]
  | succ fuel ih =>
    rw [stripZeros]
    split
    case isFalse hDigit => simpa using hDigit
    case isTrue hDigit =>
      obtain ⟨hEq, hLe, hLast⟩ := ih (n / 10)
      refine ⟨?_, by dsimp only; omega, fun hlt => hLast (by dsimp only at hlt; omega)⟩
      dsimp only
      rw [pow_succ, ← mul_assoc, ← hEq]
      omega

/-- The digits of an amount that is not zero. -/
theorem stripZeros_pos {n : Nat} (hn : n ≠ 0) :
    ∃ m e, stripZeros 9 n = (m, e) ∧ n = m * 10 ^ e ∧ e ≤ 9 ∧ (e < 9 → m % 10 ≠ 0) ∧ 1 ≤ m := by
  obtain ⟨hEq, hLe, hLast⟩ := stripZeros_spec 9 n
  refine ⟨(stripZeros 9 n).1, (stripZeros 9 n).2, rfl, hEq, hLe, hLast, ?_⟩
  rcases Nat.eq_zero_or_pos (stripZeros 9 n).1 with hm | hm
  · rw [hm, Nat.zero_mul] at hEq
    exact absurd hEq hn
  · exact hm

/-- Without a cut to 64 bits an amount is read back. -/
theorem decompressAmount_compressAmount {n : Nat} (hWide : compressAmountWide n < 2 ^ 64)
    (hn : n < 2 ^ 64) : decompressAmount (compressAmount n) = n := by
  rw [compressAmount, mod_eq_of_lt hWide]
  unfold compressAmountWide
  split
  case isTrue h => rw [h]; rfl
  case isFalse hPos =>
    obtain ⟨m, e, hStrip, hEq, hLe, hLast, hm⟩ := stripZeros_pos hPos
    rw [hStrip]
    dsimp only
    split
    case isTrue he =>
      have hDigit := hLast he
      have hx : 1 + (m / 10 * 9 + m % 10 - 1) * 10 + e - 1 =
          (m / 10 * 9 + (m % 10 - 1)) * 10 + e := by omega
      have hLow : ((m / 10 * 9 + (m % 10 - 1)) * 10 + e) % 10 = e := by omega
      have hHigh : ((m / 10 * 9 + (m % 10 - 1)) * 10 + e) / 10 = m / 10 * 9 + (m % 10 - 1) := by
        omega
      unfold decompressAmount
      rw [if_neg (by omega), hx]
      dsimp only
      rw [hLow, hHigh, if_pos he]
      have hBack : (m / 10 * 9 + (m % 10 - 1)) / 9 * 10 +
          ((m / 10 * 9 + (m % 10 - 1)) % 9 + 1) = m := by omega
      rw [hBack, ← hEq, mod_eq_of_lt hn]
    case isFalse he =>
      obtain rfl : e = 9 := by omega
      have hx : 1 + (m - 1) * 10 + 9 - 1 = (m - 1) * 10 + 9 := by omega
      have hLow : ((m - 1) * 10 + 9) % 10 = 9 := by omega
      have hHigh : ((m - 1) * 10 + 9) / 10 = m - 1 := by omega
      unfold decompressAmount
      rw [if_neg (by omega), hx]
      dsimp only
      rw [hLow, hHigh, if_neg (by omega), Nat.sub_add_cancel hm, ← hEq, Nat.mod_eq_of_lt hn]

/-! ### Amounts whose packed form is cut -/

/-- An amount with a last digit is packed into almost nine times itself. -/
theorem compressAmountWide_digit {n : Nat} (h : n % 10 ≠ 0) :
    compressAmountWide n + 9 = 9 * n + n % 10 := by
  have hStrip : stripZeros 9 n = (n, 0) := by rw [stripZeros, if_neg h]
  rw [compressAmountWide, if_neg (by omega), hStrip]
  dsimp only
  rw [if_pos (by decide)]
  omega

theorem compressAmountWide_lt_iff {n : Nat} (hn : n < 2 ^ 63) :
    compressAmountWide n < 2 ^ 64 ↔ n % 10 = 0 ∨ n ≤ 2049638230412172402 := by
  by_cases hDigit : n % 10 = 0
  · refine ⟨fun _ => .inl hDigit, fun _ => ?_⟩
    by_cases hZero : n = 0
    · rw [hZero]
      decide
    · obtain ⟨m, e, hStrip, hEq, hLe, hLast, hm⟩ := stripZeros_pos hZero
      -- one zero at least is stripped, so that nine times the rest is less than the amount
      obtain ⟨e, rfl⟩ : ∃ d, e = d + 1 := by
        cases e with
        | zero =>
          rw [pow_zero, mul_one] at hEq
          exact absurd (hEq ▸ hDigit) (hLast (by decide))
        | succ d => exact ⟨d, rfl⟩
      have hTen : m * 10 ≤ n := by
        rw [hEq, pow_succ, mul_comm (10 ^ e), ← mul_assoc]
        exact Nat.le_mul_of_pos_right _ (Nat.pow_pos (by decide))
      rw [compressAmountWide, if_neg hZero, hStrip]
      dsimp only
      clear hStrip hEq hLast
      split <;> omega
  · have := compressAmountWide_digit hDigit
    omega

/-- A number that is ten to the `e` times a ninth of itself, but for a small difference. -/
theorem eq_of_read_back {n m c u : Int} {e : Nat} (hInv : u * (9 * (1 - 10 ^ e)) ≡ 1 [ZMOD 2 ^ 64])
    (hPacked : 9 * m ≡ 9 * n + c [ZMOD 2 ^ 64]) (hBack : n ≡ m * 10 ^ e [ZMOD 2 ^ 64]) :
    n ≡ c * 10 ^ e * u [ZMOD 2 ^ 64] := by
  have hNine : 9 * n ≡ (9 * n + c) * 10 ^ e [ZMOD 2 ^ 64] :=
    calc 9 * n ≡ 9 * (m * 10 ^ e) [ZMOD 2 ^ 64] := hBack.mul_left 9
      _ = 9 * m * 10 ^ e := by ring
      _ ≡ (9 * n + c) * 10 ^ e [ZMOD 2 ^ 64] := hPacked.mul_right _
  have hRest : n * (9 * (1 - 10 ^ e)) ≡ c * 10 ^ e [ZMOD 2 ^ 64] :=
    calc n * (9 * (1 - 10 ^ e)) = 9 * n - 9 * n * 10 ^ e := by ring
      _ ≡ (9 * n + c) * 10 ^ e - 9 * n * 10 ^ e [ZMOD 2 ^ 64] := hNine.sub_right _
      _ = c * 10 ^ e := by ring
  calc n = n * 1 := (mul_one n).symm
    _ ≡ n * (u * (9 * (1 - 10 ^ e))) [ZMOD 2 ^ 64] := (hInv.mul_left n).symm
    _ = n * (9 * (1 - 10 ^ e)) * u := by ring
    _ ≡ c * 10 ^ e * u [ZMOD 2 ^ 64] := hRest.mul_right u

/-- What the cut leaves as the exponent, and the inverse of `9 * (1 - 10 ^ e)` modulo `2 ^ 64`. -/
def cutExponents : List (Nat × Nat) :=
  [(4, 2603915835676150217), (8, 2016287890051016505), (2, 4741082371357449293),
    (6, 5963108650928922233)]

/-- By `eq_of_read_back` only these amounts come into question, and none is read back. -/
theorem cut_candidates : ∀ p ∈ cutExponents,
    (p.2 : Int) * (9 * (1 - 10 ^ p.1)) ≡ 1 [ZMOD 2 ^ 64] ∧ ∀ i ∈ range 24,
      let n := (((i : Int) - 16) * 10 ^ p.1 * p.2 % 2 ^ 64).toNat
      n % 10 ≠ 0 → 2 ^ 64 ≤ compressAmountWide n → decompressAmount (compressAmount n) ≠ n := by
  decide +kernel

theorem cutExponents_range : ∀ p ∈ cutExponents, 2 ≤ p.1 ∧ p.1 ≤ 8 := by decide

/-- Nine times the number that is read is nine times the amount, but for `i - 16`. -/
theorem read_back_small {n y e k : Nat} (h : 9 * n + n % 10 = 10 * y + e + 10 + k * 2 ^ 64)
    (heLow : 2 ≤ e) (heHigh : e ≤ 8) (hDigit : n % 10 ≠ 0) :
    ∃ i : Nat, i < 24 ∧
      9 * (↑(y / 9) * 10 + (↑(y % 9) + 1)) ≡ 9 * (n : Int) + ((i : Int) - 16) [ZMOD 2 ^ 64] := by
  refine ⟨n % 10 + 16 - (y % 9 + 1) - e, by omega, ?_⟩
  rw [Int.modEq_iff_add_fac]
  refine ⟨k, ?_⟩
  omega

/-- **Cut amounts.** A packed form that does not fit is not read back. -/
theorem decompressAmount_cut {n : Nat} (hn : n < 2 ^ 63) (hWide : 2 ^ 64 ≤ compressAmountWide n) :
    decompressAmount (compressAmount n) ≠ n := by
  intro hBack
  have hDigit : n % 10 ≠ 0 := fun h =>
    absurd ((compressAmountWide_lt_iff hn).mpr (.inl h)) (not_lt.mpr hWide)
  have hPacked := compressAmountWide_digit hDigit
  -- the packed form loses `k` times `2 ^ 64`
  obtain ⟨k, hk, hCut⟩ : ∃ k ∈ [1, 2, 3, 4], compressAmount n + k * 2 ^ 64 = compressAmountWide n := by
    refine ⟨compressAmountWide n / 2 ^ 64, ?_, mod_add_div' _ _⟩
    simp only [mem_cons, not_mem_nil, or_false]
    omega
  have hRead := hBack
  unfold decompressAmount at hRead
  split at hRead
  case isTrue => omega
  case isFalse hPos =>
    dsimp only at hRead
    obtain ⟨e, he⟩ : ∃ e, (compressAmount n - 1) % 10 = e := ⟨_, rfl⟩
    obtain ⟨y, hy⟩ : ∃ y, (compressAmount n - 1) / 10 = y := ⟨_, rfl⟩
    rw [he, hy] at hRead
    have hParts : 10 * y + e + 10 + k * 2 ^ 64 = 9 * n + n % 10 := by omega
    have hExp : ∃ u, (e, u) ∈ cutExponents := by
      simp only [cutExponents, mem_cons, not_mem_nil, or_false, Prod.mk.injEq] at hk ⊢
      rcases hk with rfl | rfl | rfl | rfl
      · exact ⟨_, .inl ⟨by omega, rfl⟩⟩
      · exact ⟨_, .inr (.inl ⟨by omega, rfl⟩)⟩
      · exact ⟨_, .inr (.inr (.inl ⟨by omega, rfl⟩))⟩
      · exact ⟨_, .inr (.inr (.inr ⟨by omega, rfl⟩))⟩
    obtain ⟨u, hu⟩ := hExp
    obtain ⟨heLow, heHigh⟩ := cutExponents_range (e, u) hu
    rw [if_pos (by clear hParts; omega)] at hRead
    -- for `omega` below
    clear hPacked hCut he hy
    obtain ⟨i, hi, hInt⟩ := read_back_small hParts.symm heLow heHigh hDigit
    clear hParts
    obtain ⟨hInv, hNone⟩ := cut_candidates (e, u) hu
    have hCongr : (n : Int) ≡ ((i : Int) - 16) * 10 ^ e * u [ZMOD 2 ^ 64] := by
      refine eq_of_read_back hInv hInt ?_
      have hMod : (y / 9 * 10 + (y % 9 + 1)) * 10 ^ e ≡ n [MOD 2 ^ 64] := by
        rw [Nat.ModEq, hRead, mod_eq_of_lt (by omega)]
      have hCast := (Int.natCast_modEq_iff.mpr hMod).symm
      push_cast at hCast
      exact hCast
    have hIs : (((i : Int) - 16) * 10 ^ e * u % 2 ^ 64).toNat = n := by
      rw [← hCongr]
      clear hCongr
      omega
    have hNot := hNone i (mem_range.mpr hi)
    dsimp only at hNot
    rw [hIs] at hNot
    exact hNot hDigit hWide hBack

/-- **Amounts.** -/
theorem amountSurvives_iff {nValue : Int} (hRange : moneyRange nValue = true) :
    amountSurvives nValue = true ↔ nValue % 10 = 0 ∨ nValue ≤ 2049638230412172402 := by
  rw [moneyRange_iff] at hRange
  obtain ⟨n, rfl⟩ := Int.eq_ofNat_of_zero_le hRange.1
  have hBits : amountBits n = n := by
    unfold amountBits
    omega
  have hWide := compressAmountWide_lt_iff (n := n) (by omega)
  rw [amountSurvives, hBits, beq_iff_eq]
  by_cases hFits : compressAmountWide n < 2 ^ 64
  · rw [decompressAmount_compressAmount hFits (by omega), bitsAmount, if_pos (by omega)]
    have := hWide.mp hFits
    omega
  · have hCut := decompressAmount_cut (n := n) (by omega) (Nat.le_of_not_lt hFits)
    have hLt : decompressAmount (compressAmount n) < 2 ^ 64 := by
      unfold decompressAmount
      split
      · decide
      · exact Nat.mod_lt _ (by decide)
    refine iff_of_false (fun hBack => ?_) (fun h => hFits (hWide.mpr (by omega)))
    unfold bitsAmount at hBack
    split at hBack <;> omega

/-! ## Scripts -/

/-- `CPubKey` for uncompressed keys: the check that a point lies on the curve, and the second
coordinate of a point. -/
structure PubKeyCodec where
  isFullyValid : List UInt8 → Bool
  decompress : List UInt8 → Option (List UInt8)
  /-- A valid point is determined by its first coordinate and the parity of the second. -/
  decompress_valid : ∀ (x y : List UInt8) (last : UInt8), x.length = 32 → y.length = 31 →
    isFullyValid (0x04 :: (x ++ (y ++ [last]))) = true →
    decompress (UInt8.ofNat (2 + last.toNat % 2) :: x) = some (0x04 :: (x ++ (y ++ [last])))

namespace CScript

/-- The `n` bytes between two given ends. -/
def between (front : List UInt8) (n : Nat) (back : List UInt8) (s : CScript) :
    Option (List UInt8) :=
  if s.length = front.length + n + back.length ∧ s.take front.length = front ∧
      s.drop (front.length + n) = back then some ((s.drop front.length).take n)
  else none

theorem between_some {front back s mid : List UInt8} {n : Nat}
    (h : between front n back s = some mid) : s = front ++ mid ++ back ∧ mid.length = n := by
  unfold between at h
  split at h
  case isFalse => cases h
  case isTrue hShape =>
    obtain ⟨hLen, hFront, hBack⟩ := hShape
    obtain rfl := some.inj h
    refine ⟨?_, by rw [length_take, length_drop]; omega⟩
    conv_lhs => rw [← take_append_drop front.length s, hFront]
    rw [append_assoc]
    congr 1
    conv_lhs => rw [← take_append_drop n (s.drop front.length), drop_drop, hBack]

def isToKeyID : CScript → Option (List UInt8) :=
  between [OP_DUP, OP_HASH160, 20] 20 [OP_EQUALVERIFY, OP_CHECKSIG]

def isToScriptID : CScript → Option (List UInt8) := between [OP_HASH160, 20] 20 [OP_EQUAL]

def isToPubKey (keys : PubKeyCodec) (s : CScript) : Option (List UInt8) :=
  match (between [33] 33 [OP_CHECKSIG] s).filter fun key =>
      key.head? == some 0x02 || key.head? == some 0x03 with
  | some key => some key
  | none => (between [65] 65 [OP_CHECKSIG] s).filter fun key =>
      key.head? == some 0x04 && keys.isFullyValid key

/-- `Compress`; `none` is a script without a short form. -/
def compress (keys : PubKeyCodec) (s : CScript) : Option (List UInt8) :=
  match isToKeyID s with
  | some hash => some (0x00 :: hash)
  | none =>
    match isToScriptID s with
    | some hash => some (0x01 :: hash)
    | none =>
      (isToPubKey keys s).map fun key =>
        if key.head? == some 0x04 then
          UInt8.ofNat (4 + (key.getLast?.getD 0).toNat % 2) :: (key.drop 1).take 32
        else key

def getSpecialSize (nSize : Nat) : Nat := if nSize ≤ 1 then 20 else 32

/-- `Decompress`; a key that is no point leaves the script empty. -/
def decompress (keys : PubKeyCodec) (nSize : Nat) (vch : List UInt8) : CScript :=
  if nSize = 0 then [OP_DUP, OP_HASH160, 20] ++ vch ++ [OP_EQUALVERIFY, OP_CHECKSIG]
  else if nSize = 1 then [OP_HASH160, 20] ++ vch ++ [OP_EQUAL]
  else if nSize ≤ 3 then [33] ++ (UInt8.ofNat nSize :: vch) ++ [OP_CHECKSIG]
  else match keys.decompress (UInt8.ofNat (nSize - 2) :: vch) with
    | none => []
    | some key => [65] ++ key ++ [OP_CHECKSIG]

def nSpecialScripts : Nat := 6

/-- `CScriptCompressor::Serialize`. -/
def serialize (keys : PubKeyCodec) (s : CScript) : List UInt8 :=
  match compress keys s with
  | some compr => compr
  | none => writeVarInt (s.length + nSpecialScripts) ++ s

/-- `CScriptCompressor::Unserialize`. -/
def unserialize (keys : PubKeyCodec) : Reader CScript := do
  let nSize ← readVarInt
  if nSize < nSpecialScripts then
    decompress keys nSize <$> Reader.bytes (getSpecialSize nSize)
  else if MAX_SCRIPT_SIZE < nSize - nSpecialScripts then
    (fun _ => [OP_RETURN]) <$> Reader.bytes (nSize - nSpecialScripts)
  else Reader.bytes (nSize - nSpecialScripts)

/-- A short form of kind `nSize`. -/
theorem reads_special (keys : PubKeyCodec) (nSize : Nat) (hSize : nSize < nSpecialScripts)
    {vch : List UInt8} (hLen : vch.length = getSpecialSize nSize) :
    Reads (unserialize keys) (UInt8.ofNat nSize :: vch) (decompress keys nSize vch) := by
  have hKind : writeVarInt nSize = [UInt8.ofNat nSize] := by
    rw [writeVarInt, if_pos (by rw [nSpecialScripts] at hSize; omega)]
  have hHead := reads_varInt nSize
  rw [hKind] at hHead
  refine hHead.bind ?_
  rw [if_pos hSize]
  exact (Reads.bytes hLen).map _

/-- A public key between its ends. -/
theorem isToPubKey_some {keys : PubKeyCodec} {s key : List UInt8} (h : isToPubKey keys s = some key) :
    (∃ b x, s = [33] ++ (b :: x) ++ [OP_CHECKSIG] ∧ key = b :: x ∧ (b = 0x02 ∨ b = 0x03) ∧
      x.length = 32) ∨
    (s = [65] ++ key ++ [OP_CHECKSIG] ∧ key.length = 65 ∧ key.head? = some 0x04 ∧
      keys.isFullyValid key = true) := by
  unfold isToPubKey at h
  split at h
  case h_1 key' hShort =>
    cases h
    rw [filter_eq_some_iff] at hShort
    obtain ⟨hBetween, hHead⟩ := hShort
    obtain ⟨hs, hLen⟩ := between_some hBetween
    cases key with
    | nil => cases hLen
    | cons b x =>
      refine .inl ⟨b, x, hs, rfl, by simpa using hHead, by simpa using hLen⟩
  case h_2 =>
    rw [filter_eq_some_iff] at h
    obtain ⟨hBetween, hHead⟩ := h
    obtain ⟨hs, hLen⟩ := between_some hBetween
    rw [Bool.and_eq_true, beq_iff_eq] at hHead
    exact .inr ⟨hs, hLen, hHead.1, hHead.2⟩

/-- An uncompressed key in its parts. -/
theorem split_key {key : List UInt8} (hLen : key.length = 65) (hHead : key.head? = some 0x04) :
    ∃ x y last, key = 0x04 :: (x ++ (y ++ [last])) ∧ x.length = 32 ∧ y.length = 31 := by
  cases key with
  | nil => cases hHead
  | cons b rest =>
    obtain rfl : b = 0x04 := by simpa using hHead
    have hRest : rest.length = 64 := by simpa using hLen
    have hTail : (rest.drop 32).length = 32 := by rw [length_drop, hRest]
    have hNe : rest.drop 32 ≠ [] := by
      intro hNil
      rw [hNil] at hTail
      cases hTail
    refine ⟨rest.take 32, (rest.drop 32).dropLast, (rest.drop 32).getLast hNe, ?_, ?_, ?_⟩
    · rw [dropLast_append_getLast hNe, take_append_drop]
    · rw [length_take, hRest]
      rfl
    · rw [length_dropLast, hTail]

/-- **Scripts.** A script that is not too long is read back. -/
theorem reads_script (keys : PubKeyCodec) {s : CScript} (hLen : s.length ≤ MAX_SCRIPT_SIZE) :
    Reads (unserialize keys) (serialize keys s) s := by
  unfold serialize
  cases hCompr : compress keys s with
  | none =>
    refine (reads_varInt _).bind ?_
    rw [if_neg (by omega), if_neg (by omega)]
    exact Reads.bytes (by omega)
  | some compr =>
    unfold compress at hCompr
    split at hCompr
    case h_1 hash hKey =>
      -- pay to key hash
      obtain ⟨rfl, hHash⟩ := between_some hKey
      cases hCompr
      exact reads_special keys 0 (by decide) hHash
    case h_2 =>
      split at hCompr
      case h_1 hash hKey =>
        -- pay to script hash
        obtain ⟨rfl, hHash⟩ := between_some hKey
        cases hCompr
        exact reads_special keys 1 (by decide) hHash
      case h_2 =>
        obtain ⟨key, hKey, rfl⟩ := map_eq_some_iff.mp hCompr
        rcases isToPubKey_some hKey with ⟨b, x, rfl, rfl, hb, hx⟩ | ⟨rfl, hKeyLen, hHead, hValid⟩
        · -- a compressed key
          rcases hb with rfl | rfl
          · exact reads_special keys 2 (by decide) hx
          · exact reads_special keys 3 (by decide) hx
        · -- an uncompressed key, by the parity of its last byte
          obtain ⟨x, y, last, rfl, hx, hy⟩ := split_key hKeyLen hHead
          have hPoint := keys.decompress_valid x y last hx hy hValid
          have hLast : (0x04 :: (x ++ (y ++ [last]))).getLast? = some last := by
            rw [← append_assoc, ← cons_append, getLast?_concat]
          have hTake : ((0x04 :: (x ++ (y ++ [last]))).drop 1).take 32 = x := by
            rw [drop_one, tail_cons, ← hx, take_left]
          rw [hLast, hTake, if_pos (by rfl), getD_some]
          have hSize : x.length = getSpecialSize (4 + last.toNat % 2) := by
            rw [hx, getSpecialSize, if_neg (by omega)]
          have hRead := reads_special keys (4 + last.toNat % 2)
            (by rw [nSpecialScripts]; omega) hSize
          have hBack : decompress keys (4 + last.toNat % 2) x =
              [65] ++ (0x04 :: (x ++ (y ++ [last]))) ++ [OP_CHECKSIG] := by
            rw [decompress, if_neg (by omega), if_neg (by omega), if_neg (by omega),
              show 4 + last.toNat % 2 - 2 = 2 + last.toNat % 2 by omega, hPoint]
          rwa [hBack] at hRead

end CScript

/-! ## Outputs -/

namespace CTxOut

/-- `CTxOutCompressor`, writing. -/
def serialize (keys : PubKeyCodec) (out : CTxOut) : List UInt8 :=
  writeVarInt (compressAmount (amountBits out.nValue)) ++ CScript.serialize keys out.scriptPubKey

/-- `CTxOutCompressor`, reading. -/
def unserialize (keys : PubKeyCodec) : Reader CTxOut := do
  let nVal ← readVarInt
  let scriptPubKey ← CScript.unserialize keys
  pure ⟨bitsAmount (decompressAmount nVal), scriptPubKey⟩

/-- What is read of an output that was written. -/
theorem reads_written (keys : PubKeyCodec) (nValue : Int) {s : CScript}
    (hLen : s.length ≤ MAX_SCRIPT_SIZE) :
    Reads (unserialize keys) (serialize keys ⟨nValue, s⟩)
      ⟨bitsAmount (decompressAmount (compressAmount (amountBits nValue))), s⟩ := by
  have hEnd := (CScript.reads_script keys hLen).bind (f := fun scriptPubKey => pure (f := Reader)
    (⟨bitsAmount (decompressAmount (compressAmount (amountBits nValue))), scriptPubKey⟩ :
      CTxOut)) (Reads.pure _)
  rw [append_nil] at hEnd
  exact (reads_varInt _).bind hEnd

/-- An output that is read back as it was written: it is not null, its amount survives, and its
script can be spent. -/
def storable (out : CTxOut) : Bool :=
  !out.isNull && amountSurvives out.nValue && !CScript.isUnspendable out.scriptPubKey

/-- **Outputs.** -/
theorem reads_txOut (keys : PubKeyCodec) {out : CTxOut} (h : out.storable = true) :
    Reads (unserialize keys) (out.serialize keys) out := by
  unfold storable CScript.isUnspendable at h
  simp only [Bool.and_eq_true, Bool.not_eq_true', Bool.or_eq_false_iff, decide_eq_false_iff_not,
    amountSurvives, beq_iff_eq] at h
  obtain ⟨⟨-, hAmount⟩, -, hLen⟩ := h
  have hRead := reads_written keys out.nValue (s := out.scriptPubKey) (by omega)
  rwa [hAmount] at hRead

end CTxOut

/-- A codec for networks without uncompressed keys. -/
def noUncompressedKeys : PubKeyCodec where
  isFullyValid _ := false
  decompress _ := none
  decompress_valid _ _ _ _ _ h := by cases h

/-- **Stored amounts.** -/
theorem amount_kept_iff (keys : PubKeyCodec) (nValue : Int) (s : CScript)
    (hRange : moneyRange nValue = true) (hLen : s.length ≤ MAX_SCRIPT_SIZE) :
    (bitsAmount (decompressAmount (compressAmount (amountBits nValue))) = nValue ↔
      nValue % 10 = 0 ∨ nValue ≤ 2049638230412172402) ∧
    (Reads (CTxOut.unserialize keys) (CTxOut.serialize keys ⟨nValue, s⟩) ⟨nValue, s⟩ ↔
      nValue % 10 = 0 ∨ nValue ≤ 2049638230412172402) := by
  have hIff := amountSurvives_iff hRange
  rw [amountSurvives, beq_iff_eq] at hIff
  refine ⟨hIff, Iff.trans ⟨fun h => ?_, fun h => ?_⟩ hIff⟩
  · have hSame := h.unique (CTxOut.reads_written keys nValue hLen)
    exact (congrArg CTxOut.nValue hSame).symm
  · have hRead := CTxOut.reads_written keys nValue hLen
    rwa [h] at hRead

theorem amount_kept_round :
    bitsAmount (decompressAmount (compressAmount (amountBits 9223372036854775800))) =
      9223372036854775800 ∧
    Reads (CTxOut.unserialize noUncompressedKeys)
      (CTxOut.serialize noUncompressedKeys ⟨9223372036854775800, [0x51]⟩)
      ⟨9223372036854775800, [0x51]⟩ := by
  have h := amount_kept_iff noUncompressedKeys 9223372036854775800 [0x51] (by decide) (by decide)
  have hRound : (9223372036854775800 : Int) % 10 = 0 := by decide
  exact ⟨h.1.mpr (.inl hRound), h.2.mpr (.inl hRound)⟩

/-- `MAX_MONEY` itself comes back as a negative amount. -/
theorem max_money_lost : moneyRange MAX_MONEY = true ∧
    bitsAmount (decompressAmount (compressAmount (amountBits MAX_MONEY))) =
      -8198552921650578496 := by
  decide +kernel

end Electrum
