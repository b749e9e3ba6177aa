import Mathlib

/-!
# Byte streams

A reader takes bytes from the front of a stream or fails.  `Reads p bytes a` says that `p`
takes exactly `bytes` and returns `a`, whatever follows; the rules below compose such facts
along a reader, so that a writer and its reader are compared field by field.  The second part
is the variable-length encoding of numbers in groups of seven bits, high group first, in which
every number has exactly one encoding.

Main results:
* `Reads.bind`, `Reads.listOf` — how readers compose
* `reads_varInt` — reading a variable-length number back
-/

namespace Electrum

open List

/-- A reader of bytes. -/
abbrev Reader (α : Type) := StateT (List UInt8) Option α

namespace Reader

/-- The next byte. -/
def byte : Reader UInt8 := fun
  | [] => none
  | b :: rest => some (b, rest)

/-- The next `n` bytes. -/
def bytes (n : Nat) : Reader (List UInt8) := fun s =>
  if s.length < n then none else some (s.take n, s.drop n)

end Reader

/-- The reader takes exactly `bytes` and returns `a`. -/
def Reads {α : Type} (p : Reader α) (bytes : List UInt8) (a : α) : Prop :=
  ∀ rest, p (bytes ++ rest) = some (a, rest)

namespace Reads

variable {α β : Type}

theorem pure (a : α) : Reads (Pure.pure a) [] a := fun _ => rfl

variable {bs : List UInt8} {p : Reader α} {a : α}

/-- **Composition.** -/
theorem bind {f : α → Reader β} {bs' : List UInt8} {b : β}
    (hp : Reads p bs a) (hf : Reads (f a) bs' b) : Reads (p >>= f) (bs ++ bs') b := by
  intro rest
  show (p ((bs ++ bs') ++ rest)).bind (fun r => f r.1 r.2) = some (b, rest)
  rw [append_assoc, hp (bs' ++ rest)]
  exact hf rest

theorem map (hp : Reads p bs a) (f : α → β) : Reads (f <$> p) bs (f a) := by
  intro rest
  show (p (bs ++ rest)).bind (fun r => some (f r.1, r.2)) = some (f a, rest)
  rw [hp rest]
  rfl

theorem byte (b : UInt8) : Reads Reader.byte [b] b := fun _ => rfl

theorem bytes {n : Nat} (h : bs.length = n) : Reads (Reader.bytes n) bs bs := by
  intro rest
  unfold Reader.bytes
  rw [if_neg (by rw [length_append]; omega), ← h, take_left, drop_left]

/-- Reading nothing more gives back what is left. -/
theorem run (h : Reads p bs a) : p bs = some (a, []) := by
  have hEnd := h []
  rwa [append_nil] at hEnd

/-- What is read is determined by the bytes. -/
theorem unique {b : α} (ha : Reads p bs a) (hb : Reads p bs b) : a = b := by
  have hSame := ha.run.symm.trans hb.run
  simpa using hSame

/-- **Lists.** A reader for each element, one after the other. -/
theorem listOf {γ : Type} {p : γ → Reader β} {write : γ → List UInt8} {value : γ → β}
    (l : List γ) (h : ∀ x ∈ l, Reads (p x) (write x) (value x)) :
    Reads (l.mapM p) (l.flatMap write) (l.map value) := by
  induction l with
  | nil => exact pure []
  | cons x rest ih =>
    rw [mapM_cons]
    refine (h x mem_cons_self).bind ?_
    have hRest := ih fun y hy => h y (mem_cons_of_mem x hy)
    have hAll := hRest.bind (f := fun bs => Pure.pure (value x :: bs)) (pure (value x :: rest.map value))
    rwa [append_nil] at hAll

end Reads

/-! ## Variable-length numbers -/

/-- The groups of `n` as they stand before the last group: every one is marked as not the
last.  The number of groups is bounded by `n`, which makes the recursion structural. -/
def varIntGroups : Nat → Nat → List UInt8
  | 0, n => [UInt8.ofNat (0x80 + n % 0x80)]
  | fuel + 1, n =>
    if n ≤ 0x7F then [UInt8.ofNat (0x80 + n)]
    else varIntGroups fuel (n / 0x80 - 1) ++ [UInt8.ofNat (0x80 + n % 0x80)]

/-- `WriteVarInt` for a number that is not negative. -/
def writeVarInt (n : Nat) : List UInt8 :=
  if n ≤ 0x7F then [UInt8.ofNat n]
  else varIntGroups n (n / 0x80 - 1) ++ [UInt8.ofNat (n % 0x80)]

/-- `ReadVarInt`, with the groups read so far in `n`. -/
def readVarIntFrom (n : Nat) : List UInt8 → Option (Nat × List UInt8)
  | [] => none
  | ch :: rest =>
    let n := n * 0x80 + ch.toNat % 0x80
    if 0x80 ≤ ch.toNat then readVarIntFrom (n + 1) rest else some (n, rest)

/-- `ReadVarInt`. -/
def readVarInt : Reader Nat := readVarIntFrom 0

variable {n : Nat}

/-- A marked group. -/
theorem readVarIntFrom_marked (acc : Nat) (h : n < 0x80) (rest : List UInt8) :
    readVarIntFrom acc (UInt8.ofNat (0x80 + n) :: rest) =
      readVarIntFrom (acc * 0x80 + n + 1) rest := by
  have hByte : (UInt8.ofNat (0x80 + n)).toNat = 0x80 + n := by
    rw [UInt8.toNat_ofNat']
    omega
  rw [readVarIntFrom]
  rw [if_pos (by omega)]
  congr 1
  omega

/-- The last group. -/
theorem readVarIntFrom_last (acc : Nat) (h : n < 0x80) (rest : List UInt8) :
    readVarIntFrom acc (UInt8.ofNat n :: rest) = some (acc * 0x80 + n, rest) := by
  have hByte : (UInt8.ofNat n).toNat = n := by
    rw [UInt8.toNat_ofNat']
    omega
  rw [readVarIntFrom]
  simp only [hByte]
  rw [if_neg (by omega), Nat.mod_eq_of_lt h]

/-- After the marked groups of `n` the reader has `n + 1`. -/
theorem readVarIntFrom_groups (fuel n : Nat) (h : n ≤ fuel) (rest : List UInt8) :
    readVarIntFrom 0 (varIntGroups fuel n ++ rest) = readVarIntFrom (n + 1) rest := by
  induction fuel generalizing n rest with
  | zero =>
    obtain rfl : n = 0 := by omega
    exact readVarIntFrom_marked 0 (by omega) rest
  | succ fuel ih =>
    rw [varIntGroups]
    split
    case isTrue hSmall =>
      rw [singleton_append, readVarIntFrom_marked 0 (by omega)]
      congr 1
      omega
    case isFalse hLarge =>
      rw [append_assoc, ih _ (by omega), singleton_append, readVarIntFrom_marked _ (by omega)]
      congr 1
      omega

/-- **Numbers.** -/
theorem reads_varInt (n : Nat) : Reads readVarInt (writeVarInt n) n := by
  intro rest
  unfold readVarInt writeVarInt
  split
  case isTrue hSmall =>
    rw [singleton_append, readVarIntFrom_last 0 (by omega)]
    congr 2
    omega
  case isFalse hLarge =>
    rw [append_assoc, readVarIntFrom_groups _ _ (by omega), singleton_append,
      readVarIntFrom_last _ (by omega)]
    congr 2
    omega

end Electrum
