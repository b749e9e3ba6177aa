import Electrum.Coins.Compressor
import Electrum.Coins.Undo

/-!
# Stored coins

How an entry of the coin view and the undo data of an input are written to disk and read
back.  The header code of an entry counts the bytes of the bit mask that are not zero; the
mark of a coinstake is not written at all, and of a negative version only seven bits are.

Main results:
* `CCoins.reads_coins`, `CCoins.entry_read_back` — what is left of an entry
* `CTxInUndo.reads_undo` — what is left of undo data
-/

namespace Electrum

open List

/-! ## Versions -/

/-- `WriteVarInt` for a signed number: a negative one is below `0x80`, so that only its low
seven bits are written. -/
def writeSignedVarInt (n : Int) : List UInt8 :=
  if n ≤ 0x7F then [UInt8.ofNat (n % 0x80).toNat] else writeVarInt n.toNat

/-- What is read back. -/
def storedVersion (n : Int) : Int := if n < 0 then n % 0x80 else n

theorem reads_signedVarInt (n : Int) :
    Reads (Int.ofNat <$> readVarInt) (writeSignedVarInt n) (storedVersion n) := by
  -- the number whose encoding is written
  have hWrite : ∃ m : Nat, writeSignedVarInt n = writeVarInt m ∧ storedVersion n = m := by
    unfold writeSignedVarInt storedVersion
    by_cases hSmall : n ≤ 0x7F
    · refine ⟨(n % 0x80).toNat, ?_, ?_⟩
      · rw [if_pos hSmall, writeVarInt, if_pos (by omega)]
      · split <;> omega
    · refine ⟨n.toNat, by rw [if_neg hSmall], ?_⟩
      split <;> omega
  obtain ⟨m, hBytes, hValue⟩ := hWrite
  rw [hBytes, hValue]
  exact (reads_varInt m).map Int.ofNat

/-- The versions that are kept are those that are not negative. -/
def VersionKept (a b : Int) : Prop := 0 ≤ a → b = a

theorem keepsVersions_kept : KeepsVersions VersionKept where
  refl _ _ := rfl
  trans a b c hab hbc ha := by
    obtain rfl := hab ha
    exact hbc ha
  keeps _ _ h := h

theorem versionKept_stored (n : Int) : VersionKept n (storedVersion n) := by
  intro hPos
  rw [storedVersion, if_neg (by omega)]

/-! ## The bit mask -/

/-- Eight bits in a byte, low bit first. -/
def packBits (f : Nat → Bool) : UInt8 :=
  UInt8.ofNat (((range 8).map fun i => if f i then 2 ^ i else 0).sum)

def unpackBits (ch : UInt8) : List Bool := (range 8).map fun p => ch.toNat.testBit p

theorem unpackBits_packBits (f : Nat → Bool) : unpackBits (packBits f) = (range 8).map f := by
  have hAll : ∀ b0 b1 b2 b3 b4 b5 b6 b7 : Bool,
      unpackBits (UInt8.ofNat [cond b0 1 0, cond b1 2 0, cond b2 4 0, cond b3 8 0, cond b4 16 0,
        cond b5 32 0, cond b6 64 0, cond b7 128 0].sum) = [b0, b1, b2, b3, b4, b5, b6, b7] := by
    decide +kernel
  have hSum : packBits f = UInt8.ofNat [cond (f 0) 1 0, cond (f 1) 2 0, cond (f 2) 4 0,
      cond (f 3) 8 0, cond (f 4) 16 0, cond (f 5) 32 0, cond (f 6) 64 0,
      cond (f 7) 128 0].sum := by
    simp [packBits, range_succ, Bool.cond_eq_ite]
  rw [hSum]
  exact hAll _ _ _ _ _ _ _ _

/-- A bit that is set makes the byte one that counts. -/
theorem packBits_ne_zero {f : Nat → Bool} {i : Nat} (hi : i < 8) (hf : f i = true) :
    packBits f ≠ 0 := by
  intro hZero
  have hBits := unpackBits_packBits f
  rw [hZero] at hBits
  have hBit : ((range 8).map f)[i]? = some true := by
    rw [getElem?_map, getElem?_range hi, Option.map_some, hf]
  rw [← hBits, unpackBits, getElem?_map] at hBit
  simp at hBit

theorem packBits_eq_zero_iff {f : Nat → Bool} :
    packBits f = 0 ↔ ((range 8).all fun i => !f i) = true := by
  rw [all_eq_true]
  constructor
  · intro hZero i hi
    rw [Bool.not_eq_true', Bool.eq_false_iff]
    exact fun hf => packBits_ne_zero (mem_range.mp hi) hf hZero
  · intro hNone
    have hMap : (range 8).map (fun i => if f i then 2 ^ i else 0) = (range 8).map fun _ => 0 := by
      refine map_congr_left fun i hi => if_neg ?_
      rw [Bool.not_eq_true, ← Bool.not_eq_true']
      exact hNone i hi
    rw [packBits, hMap]
    decide

/-- The loop of `Unserialize` over the mask: bytes are read until `nMaskCode` of them were not
zero. -/
def readMaskFrom : Nat → List UInt8 → Option (List Bool × List UInt8)
  | 0, s => some ([], s)
  | _ + 1, [] => none
  | nMaskCode + 1, ch :: rest =>
    (readMaskFrom (if ch ≠ 0 then nMaskCode else nMaskCode + 1) rest).map fun r =>
      (unpackBits ch ++ r.1, r.2)

def readMask (nMaskCode : Nat) : Reader (List Bool) := readMaskFrom nMaskCode

/-- A mask that does not end with a zero byte. -/
theorem reads_mask {bytes : List UInt8} (hLast : bytes.getLast? ≠ some 0) :
    Reads (readMask (bytes.countP (· ≠ 0))) bytes (bytes.flatMap unpackBits) := by
  intro rest
  show readMaskFrom _ _ = _
  induction bytes with
  | nil => rw [countP_nil, readMaskFrom]; rfl
  | cons ch bytes ih =>
    have hTail : bytes.getLast? ≠ some 0 := by
      intro hZero
      apply hLast
      rw [getLast?_cons, hZero]
      rfl
    by_cases hch : ch = 0
    · -- a zero byte is not the last one, so another byte is counted
      obtain ⟨k, hk⟩ : ∃ k, bytes.countP (· ≠ 0) = k + 1 := by
        apply Nat.exists_eq_succ_of_ne_zero
        intro hNone
        rw [countP_eq_zero] at hNone
        cases hEnd : bytes.getLast? with
        | none =>
          apply hLast
          rw [getLast?_cons, hEnd, hch]
          rfl
        | some b =>
          have hb := hNone b (mem_of_getLast? hEnd)
          simp only [ne_eq, decide_not, Bool.not_eq_true', decide_eq_false_iff_not, not_not] at hb
          exact hTail (hb ▸ hEnd)
      rw [countP_cons_of_neg (by simp [hch]), hk, cons_append, readMaskFrom,
        if_neg (by simp [hch]), ← hk, ih hTail]
      simp
    · rw [countP_cons_of_pos (by simp [hch]), cons_append, readMaskFrom, if_pos hch, ih hTail]
      simp

/-- The bits of consecutive bytes are consecutive. -/
theorem flatMap_unpackBits (f : Nat → Bool) (k : Nat) :
    ((range k).map fun b => packBits fun i => f (b * 8 + i)).flatMap unpackBits =
      (range (k * 8)).map f := by
  induction k with
  | zero => rfl
  | succ k ih =>
    rw [range_succ, map_append, flatMap_append, ih, Nat.succ_mul, range_add, map_append]
    rw [map_singleton, flatMap_singleton, unpackBits_packBits]
    rfl

/-! ## Entries of the coin view -/

namespace CCoins

def isAvailable (coins : CCoins) (n : Nat) : Bool := (coins.available n).isSome

/-- The availability of the outputs from the third on, as far as `CalcMaskSize` counts: up to
the last byte that is not zero. -/
def maskBytes (coins : CCoins) : List UInt8 :=
  (((range ((coins.vout.length - 2 + 7) / 8)).map fun b =>
    packBits fun i => coins.isAvailable (2 + (b * 8 + i))).reverse.dropWhile (· == 0)).reverse

/-- `CalcMaskSize`: the number of bytes up to the last one that is used, and how many of them
are. -/
def calcMaskSize (coins : CCoins) : Nat × Nat :=
  (range ((coins.vout.length - 2 + 7) / 8)).foldl (fun (nLastUsedByte, nNonzeroBytes) b =>
    let fZero := (range 8).all fun i => !coins.isAvailable (2 + (b * 8 + i))
    if fZero then (nLastUsedByte, nNonzeroBytes) else (b + 1, nNonzeroBytes + 1)) (0, 0)

/-- The header code. -/
def headerCode (coins : CCoins) : Nat :=
  let fFirst := coins.isAvailable 0
  let fSecond := coins.isAvailable 1
  8 * (coins.maskBytes.countP (· ≠ 0) - (if fFirst || fSecond then 0 else 1)) +
    (if coins.fCoinBase then 1 else 0) + (if fFirst then 2 else 0) + (if fSecond then 4 else 0)

/-- `Serialize`. -/
def serialize (keys : PubKeyCodec) (coins : CCoins) : List UInt8 :=
  writeSignedVarInt coins.nVersion ++ (writeVarInt coins.headerCode ++ (coins.maskBytes ++
    ((coins.vout.flatMap fun o => o.elim [] (CTxOut.serialize keys)) ++
      writeVarInt coins.nHeight)))

/-- One output of an entry, which may be read as a spent one. -/
def readOutput (keys : PubKeyCodec) (fAvail : Bool) : Reader (Option CTxOut) :=
  if fAvail then (fun out => if out.isNull then none else some out) <$> CTxOut.unserialize keys
  else pure none

/-- `Unserialize`, into an empty entry. -/
def unserialize (keys : PubKeyCodec) : Reader CCoins := do
  let nVersion ← Int.ofNat <$> readVarInt
  let nCode ← readVarInt
  let mask ← readMask (nCode / 8 + if nCode / 2 % 4 ≠ 0 then 0 else 1)
  let vout ← ((nCode / 2 % 2 == 1) :: (nCode / 4 % 2 == 1) :: mask).mapM (readOutput keys)
  let nHeight ← readVarInt
  pure { empty with fCoinBase := nCode % 2 == 1, vout := cleanup vout, nHeight := nHeight,
                    nVersion := nVersion }

/-- An entry that the database keeps. -/
structure Storable (coins : CCoins) : Prop extends coins.Proper where
  outputs : ∀ out, some out ∈ coins.vout → out.storable = true

instance (coins : CCoins) : Decidable coins.Storable :=
  decidable_of_iff (coins.Proper ∧ ∀ o ∈ coins.vout, o.all CTxOut.storable = true)
    ⟨fun h => ⟨h.1, fun out hOut => h.2 _ hOut⟩, fun h => ⟨h.toProper, fun o ho => by
      cases o with
      | none => rfl
      | some out => exact h.outputs out ho⟩⟩

/-- What the database keeps of an entry. -/
def stored (coins : CCoins) : CCoins :=
  { coins with fCoinStake := false, nVersion := storedVersion coins.nVersion }

theorem restores_stored (coins : CCoins) : coins.Restores VersionKept coins.stored :=
  ⟨rfl, rfl, rfl, versionKept_stored coins.nVersion, fun h => by cases h⟩

variable {coins : CCoins}

section Mask

variable {coins : CCoins} (hLast : (coins.vout.getLast?.join).isSome = true)
include hLast

/-- The last output of a trimmed entry. -/
theorem last_available :
    0 < coins.vout.length ∧ coins.isAvailable (coins.vout.length - 1) = true := by
  rw [getLast?_eq_getElem?] at hLast
  refine ⟨?_, hLast⟩
  rcases Nat.eq_zero_or_pos coins.vout.length with hZero | hPos
  · rw [length_eq_zero_iff.mp hZero] at hLast
    cases hLast
  · exact hPos

/-- The byte with the last output, if there are more than two. -/
theorem last_byte {k : Nat} (hk : (coins.vout.length - 2 + 7) / 8 = k + 1) :
    packBits (fun i => coins.isAvailable (2 + (k * 8 + i))) ≠ 0 := by
  obtain ⟨hPos, hAvail⟩ := last_available hLast
  refine packBits_ne_zero (i := coins.vout.length - 1 - 2 - k * 8) (by omega) ?_
  rw [show 2 + (k * 8 + (coins.vout.length - 1 - 2 - k * 8)) = coins.vout.length - 1 by omega]
  exact hAvail

/-- Nothing is cut off the mask of a trimmed entry. -/
theorem maskBytes_eq : coins.maskBytes = (range ((coins.vout.length - 2 + 7) / 8)).map fun b =>
      packBits fun i => coins.isAvailable (2 + (b * 8 + i)) := by
  unfold maskBytes
  cases hk : (coins.vout.length - 2 + 7) / 8 with
  | zero => rfl
  | succ k =>
    rw [range_succ, map_append, map_singleton, reverse_append, reverse_singleton, singleton_append,
      dropWhile_cons_of_neg (by simpa using last_byte hLast hk), reverse_cons,
      reverse_reverse]

theorem maskBytes_last : coins.maskBytes.getLast? ≠ some 0 := by
  rw [maskBytes_eq hLast]
  cases hk : (coins.vout.length - 2 + 7) / 8 with
  | zero => simp
  | succ k =>
    rw [range_succ, map_append, map_singleton, getLast?_concat]
    intro hZero
    exact last_byte hLast hk (Option.some.inj hZero)

/-- The mask is what `CalcMaskSize` counts. -/
theorem calcMaskSize_eq :
    coins.calcMaskSize = (coins.maskBytes.length, coins.maskBytes.countP (· ≠ 0)) := by
  have hLoop : coins.calcMaskSize = (range ((coins.vout.length - 2 + 7) / 8)).foldl (fun st b =>
      if packBits (fun i => coins.isAvailable (2 + (b * 8 + i))) = 0 then st
      else (b + 1, st.2 + 1)) (0, 0) := by
    unfold calcMaskSize
    simp only [packBits_eq_zero_iff]
  have hCount (f : Nat → UInt8) (n : Nat) : ((range n).foldl (fun st b =>
      if f b = 0 then st else (b + 1, st.2 + 1)) (0, 0)).2 =
        ((range n).map f).countP (· ≠ 0) := by
    induction n with
    | zero => rfl
    | succ n ih =>
      rw [range_succ, map_append, countP_append, ← ih]
      by_cases hZero : f n = 0 <;> simp [hZero]
  rw [hLoop, maskBytes_eq hLast, length_map, length_range, ← hCount]
  cases hk : (coins.vout.length - 2 + 7) / 8 with
  | zero => rfl
  | succ k => rw [range_succ, foldl_concat, if_neg (last_byte hLast hk)]

/-- Without the first two outputs a byte of the mask counts. -/
theorem mask_pos (hFirst : coins.isAvailable 0 = false)
    (hSecond : coins.isAvailable 1 = false) : 0 < coins.maskBytes.countP (· ≠ 0) := by
  obtain ⟨hPos, hAvail⟩ := last_available hLast
  have hLong : 2 < coins.vout.length := by
    by_contra hShort
    have hLen : coins.vout.length - 1 = 0 ∨ coins.vout.length - 1 = 1 := by omega
    rcases hLen with hEq | hEq
    · rw [hEq, hFirst] at hAvail
      cases hAvail
    · rw [hEq, hSecond] at hAvail
      cases hAvail
  obtain ⟨k, hk⟩ : ∃ k, (coins.vout.length - 2 + 7) / 8 = k + 1 :=
    ⟨(coins.vout.length - 2 + 7) / 8 - 1, by omega⟩
  rw [countP_pos_iff, maskBytes_eq hLast, hk]
  refine ⟨_, mem_map_of_mem (mem_range.mpr (Nat.lt_succ_self k)), ?_⟩
  simpa using last_byte hLast hk

/-- The header code tells its parts apart. -/
theorem headerCode_parts : (coins.headerCode % 2 == 1) = coins.fCoinBase ∧
    (coins.headerCode / 2 % 2 == 1) = coins.isAvailable 0 ∧
    (coins.headerCode / 4 % 2 == 1) = coins.isAvailable 1 ∧
    (coins.headerCode / 8 + if coins.headerCode / 2 % 4 ≠ 0 then 0 else 1) =
      coins.maskBytes.countP (· ≠ 0) := by
  have hMask := mask_pos hLast
  unfold headerCode
  generalize coins.isAvailable 0 = fFirst at hMask ⊢
  generalize coins.isAvailable 1 = fSecond at hMask ⊢
  cases coins.fCoinBase <;> cases fFirst <;> cases fSecond <;>
    simp only [Bool.or_self, Bool.or_true, Bool.or_false, Bool.false_eq_true, if_true, if_false,
      beq_iff_eq, beq_eq_false_iff_ne, forall_const] at hMask ⊢ <;>
    refine ⟨by omega, by omega, by omega, ?_⟩ <;> split <;> omega

/-- The outputs that are read: those of the entry and then spent ones. -/
theorem availability :
    coins.isAvailable 0 :: coins.isAvailable 1 :: coins.maskBytes.flatMap unpackBits =
      (range (2 + (coins.vout.length - 2 + 7) / 8 * 8)).map coins.isAvailable := by
  rw [maskBytes_eq hLast, flatMap_unpackBits fun j => coins.isAvailable (2 + j), range_add,
    map_append, map_map]
  rfl

end Mask

/-- The outputs by position, as far as they are read. -/
theorem map_available (coins : CCoins) {n : Nat} (hn : coins.vout.length ≤ n) :
    (range n).map coins.available = coins.vout ++ replicate (n - coins.vout.length) none := by
  apply ext_getElem?
  intro i
  rw [getElem?_map, getElem?_append, getElem?_replicate]
  by_cases hi : i < n
  · rw [getElem?_range hi, Option.map_some, available]
    by_cases hLen : i < coins.vout.length
    · rw [if_pos hLen, getElem?_eq_getElem hLen]
      rfl
    · rw [if_neg hLen, getElem?_eq_none (by omega), if_pos (by omega)]
      rfl
  · rw [getElem?_eq_none (by simpa using hi), if_neg (by omega), if_neg (by omega)]
    rfl

theorem cleanup_replicate (vout : List (Option CTxOut)) (n : Nat) :
    cleanup (vout ++ replicate n none) = cleanup vout := by
  rw [cleanup, reverse_append, reverse_replicate,
    dropWhile_append_of_pos fun o ho => by rw [eq_of_mem_replicate ho]; rfl]
  rfl

/-- Spent outputs are not written. -/
theorem flatMap_spent (keys : PubKeyCodec) (n : Nat) :
    ((replicate n none).flatMap fun o : Option CTxOut => o.elim [] (CTxOut.serialize keys)) =
      [] := by
  rw [flatMap_eq_nil_iff]
  intro o ho
  rw [eq_of_mem_replicate ho]
  rfl

/-- The codec of an output gives back the outputs of the entry. -/
def Faithful (keys : PubKeyCodec) (coins : CCoins) : Prop :=
  ∀ out, some out ∈ coins.vout → out.isNull = false ∧
    Reads (CTxOut.unserialize keys) (out.serialize keys) out

theorem faithful_of_storable (h : ∀ out, some out ∈ coins.vout → out.storable = true)
    (keys : PubKeyCodec) : coins.Faithful keys := by
  intro out hOut
  have hStorable := h out hOut
  refine ⟨?_, CTxOut.reads_txOut keys hStorable⟩
  unfold CTxOut.storable at hStorable
  simp only [Bool.and_eq_true, Bool.not_eq_true'] at hStorable
  exact hStorable.1.1

/-- One output of an entry. -/
theorem Faithful.reads_output {keys : PubKeyCodec} (h : coins.Faithful keys) (n : Nat) :
    Reads (readOutput keys (coins.isAvailable n))
      ((coins.available n).elim [] (CTxOut.serialize keys)) (coins.available n) := by
  unfold isAvailable readOutput
  cases hOut : coins.available n with
  | none => exact .pure none
  | some out =>
    obtain ⟨hNull, hCodec⟩ := h out (mem_of_getElem? (Option.join_eq_some_iff.mp hOut))
    have hRead := hCodec.map fun out => if out.isNull then none else some out
    rwa [hNull] at hRead

/-- **Entries.** All that is lost is the mark of a coinstake and negative versions. -/
theorem reads_entry {keys : PubKeyCodec} (h : coins.Faithful keys)
    (hLast : (coins.vout.getLast?.join).isSome = true) :
    Reads (unserialize keys) (coins.serialize keys) coins.stored := by
  obtain ⟨hBase, hFirst, hSecond, hMask⟩ := headerCode_parts hLast
  refine (reads_signedVarInt coins.nVersion).bind ((reads_varInt coins.headerCode).bind ?_)
  rw [hMask, hBase, hFirst, hSecond]
  refine (reads_mask (maskBytes_last hLast)).bind ?_
  rw [availability hLast]
  -- the outputs, up to the end of the last byte of the mask
  have hLong : coins.vout.length ≤ 2 + (coins.vout.length - 2 + 7) / 8 * 8 := by omega
  have hOutputs := Reads.listOf (p := readOutput keys ∘ coins.isAvailable)
    (range (2 + (coins.vout.length - 2 + 7) / 8 * 8)) fun n _ => h.reads_output n
  rw [map_available coins hLong] at hOutputs
  have hBytes : (range (2 + (coins.vout.length - 2 + 7) / 8 * 8)).flatMap
      (fun n => (coins.available n).elim [] (CTxOut.serialize keys)) =
      coins.vout.flatMap fun o => o.elim [] (CTxOut.serialize keys) := by
    have hMap := congrArg (flatMap fun o => o.elim [] (CTxOut.serialize keys))
      (map_available coins hLong)
    rwa [flatMap_map, flatMap_append, flatMap_spent, append_nil] at hMap
  rw [hBytes] at hOutputs
  rw [mapM_map]
  refine hOutputs.bind ?_
  have hEnd := (reads_varInt coins.nHeight).bind (f := fun nHeight => pure (f := Reader)
    ({ empty with fCoinBase := coins.fCoinBase, vout := cleanup (coins.vout ++ replicate
                    (2 + (coins.vout.length - 2 + 7) / 8 * 8 - coins.vout.length) none),
                  nHeight := nHeight, nVersion := storedVersion coins.nVersion } : CCoins))
    (Reads.pure _)
  rw [append_nil, cleanup_replicate, cleanup_of_last hLast] at hEnd
  rw [cleanup_replicate, cleanup_of_last hLast]
  exact hEnd

theorem reads_coins (keys : PubKeyCodec) (h : coins.Storable) :
    Reads (unserialize keys) (coins.serialize keys) coins.stored :=
  reads_entry (faithful_of_storable h.outputs keys) h.last

/-- **The codec of entries.**  Whatever outputs are spent, an entry that is not pruned comes back
from its serialization with the same outputs available, and the mask that is written is the one that
`CalcMaskSize` counts. -/
theorem entry_read_back {keys : PubKeyCodec} (coins : CCoins)
    (hUnspent : coins.vout.all (·.isNone) = false) (hVersion : 0 ≤ coins.nVersion)
    (hCodec : coins.Faithful keys) :
    let trimmed := { coins with vout := cleanup coins.vout }
    trimmed.calcMaskSize = (trimmed.maskBytes.length, trimmed.maskBytes.countP (· ≠ 0)) ∧
    ∃ back, Reads (unserialize keys) (trimmed.serialize keys) back ∧
      (∀ n, back.available n = coins.available n) ∧ back.nHeight = coins.nHeight ∧
      back.nVersion = coins.nVersion ∧ back.fCoinBase = coins.fCoinBase := by
  intro trimmed
  have hSome : (cleanup coins.vout).isEmpty = false := by
    rw [Bool.eq_false_iff, ne_eq, List.isEmpty_iff]
    intro hNil
    obtain ⟨o, hMem, hSome⟩ := all_eq_false.mp hUnspent
    obtain ⟨n, hn⟩ := mem_iff_getElem?.mp hMem
    have hJoin := cleanup_join coins.vout n
    rw [hNil, hn] at hJoin
    cases o with
    | none => exact hSome rfl
    | some out => cases hJoin
  have hLast : (trimmed.vout.getLast?.join).isSome = true := last_cleanup hSome
  have hFaithful : trimmed.Faithful keys := fun out hOut => hCodec out (mem_cleanup hOut)
  refine ⟨calcMaskSize_eq hLast, trimmed.stored, reads_entry hFaithful hLast, fun n => ?_, rfl, ?_,
    rfl⟩
  · exact cleanup_join coins.vout n
  · exact if_neg (not_lt.mpr hVersion)

/-- An entry whose third and twelfth outputs are unspent; spent ones follow. -/
def twoLeft : CCoins where
  fCoinBase := true
  fCoinStake := false
  vout := [none, none, some ⟨50, [0x51]⟩] ++ replicate 8 none ++ [some ⟨70, [0x52]⟩, none, none]
  nHeight := 7
  nVersion := 1

theorem entry_read_back_twoLeft :
    twoLeft.vout.all (·.isNone) = false ∧
    ∃ back, Reads (unserialize noUncompressedKeys)
      (serialize noUncompressedKeys { twoLeft with vout := cleanup twoLeft.vout }) back ∧
      back.available 11 = some ⟨70, [0x52]⟩ := by
  have hAll : ∀ o ∈ twoLeft.vout, o.all CTxOut.storable = true := by decide +kernel
  obtain ⟨-, back, hRead, hSame, -⟩ :=
    entry_read_back twoLeft (by decide +kernel) (by decide)
      (faithful_of_storable (fun out hOut => hAll _ hOut) noUncompressedKeys)
  exact ⟨by decide +kernel, back, hRead, (hSame 11).trans (by decide +kernel)⟩

end CCoins

/-! ## Undo data -/

namespace CTxInUndo

/-- `Serialize`. -/
def serialize (keys : PubKeyCodec) (undo : CTxInUndo) : List UInt8 :=
  writeVarInt (undo.nHeight * 2 + if undo.fCoinBase then 1 else 0) ++
    ((if 0 < undo.nHeight then writeSignedVarInt undo.nVersion else []) ++
      undo.txout.serialize keys)

/-- The version, which is there if the height is not zero. -/
def readVersion (nHeight : Nat) : Reader Int :=
  if 0 < nHeight then Int.ofNat <$> readVarInt else pure 0

/-- `Unserialize`. -/
def unserialize (keys : PubKeyCodec) : Reader CTxInUndo := do
  let nCode ← readVarInt
  let nVersion ← readVersion (nCode / 2)
  let txout ← CTxOut.unserialize keys
  pure ⟨txout, nCode % 2 == 1, nCode / 2, nVersion⟩

/-- Undo data as `UpdateCoins` makes them: the version is saved together with the height. -/
structure Storable (undo : CTxInUndo) : Prop where
  txout : undo.txout.storable = true
  version : undo.nHeight = 0 → undo.nVersion = 0

/-- What the undo file keeps. -/
def stored (undo : CTxInUndo) : CTxInUndo :=
  { undo with nVersion := if 0 < undo.nHeight then storedVersion undo.nVersion else 0 }

theorem Storable.restores_stored {undo : CTxInUndo} (h : undo.Storable) :
    undo.Restores VersionKept undo.stored := by
  refine ⟨rfl, rfl, rfl, ?_⟩
  unfold stored
  split
  case isTrue => exact versionKept_stored undo.nVersion
  case isFalse hZero =>
    intro _
    exact (h.version (by omega)).symm

/-- **Undo data.** -/
theorem reads_undo (keys : PubKeyCodec) {undo : CTxInUndo} (h : undo.Storable) :
    Reads (unserialize keys) (undo.serialize keys) undo.stored := by
  refine (reads_varInt _).bind ?_
  have hHeight : (undo.nHeight * 2 + if undo.fCoinBase then 1 else 0) / 2 = undo.nHeight := by
    split <;> omega
  have hBase : ((undo.nHeight * 2 + if undo.fCoinBase then 1 else 0) % 2 == 1) =
      undo.fCoinBase := by
    cases undo.fCoinBase <;> simp
  rw [hHeight, hBase]
  have hVersion : Reads (readVersion undo.nHeight)
      (if 0 < undo.nHeight then writeSignedVarInt undo.nVersion else [])
      (if 0 < undo.nHeight then storedVersion undo.nVersion else 0) := by
    unfold readVersion
    split
    · exact reads_signedVarInt undo.nVersion
    · exact .pure 0
  refine hVersion.bind ?_
  have hEnd := (CTxOut.reads_txOut keys h.txout).bind (f := fun txout => pure (f := Reader)
    (⟨txout, undo.fCoinBase, undo.nHeight,
      if 0 < undo.nHeight then storedVersion undo.nVersion else 0⟩ : CTxInUndo)) (Reads.pure _)
  rwa [append_nil] at hEnd

end CTxInUndo

end Electrum
