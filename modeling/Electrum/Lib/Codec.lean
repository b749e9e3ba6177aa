import Electrum.Lib.ByteStream
import Electrum.Lib.OrderedMap

/-!
# Codecs

A codec is a writer with a reader that takes exactly what was written and gives it back, for the
values that fit.  The codecs below are those of numbers of a fixed width, of texts, lists and
ordered maps; a record is written field by field, and read in the same order.

Main results:
* `Codec.reads` — what was written is read back
* `Reads.field` — reading a record, one field after the other
* `Codec.reads_when` — a field that is written under a condition
* `Codec.write_cancel` — records with the same bytes have the same first field
-/

namespace Electrum

open List Nat

structure Codec (α : Type) where
  write : α → List UInt8
  read : Reader α
  Fits : α → Prop
  reads : ∀ a, Fits a → Reads read (write a) a

/-! ## Records -/

/-- **The first field of a record.** -/
theorem Reads.field {α β : Type} {p : Reader α} {f : α → Reader β} {bs : List UInt8}
    {rest : List (List UInt8)} {a : α} {b : β} (hp : Reads p bs a)
    (hf : Reads (f a) rest.flatten b) : Reads (p >>= f) (bs :: rest).flatten b :=
  hp.bind hf

/-- The end of a record. -/
theorem Reads.done {α : Type} (a : α) : Reads (Pure.pure a) ([] : List (List UInt8)).flatten a :=
  Reads.pure a

namespace Codec

variable {α β : Type}

/-- A field that is written only under a condition. -/
def writeWhen (c : Codec α) (cond : Bool) (a : α) : List UInt8 := if cond then c.write a else []

/-- Where the field was not written it has a default. -/
def readWhen (c : Codec α) (cond : Bool) (default : α) : Reader α :=
  if cond then c.read else Pure.pure default

theorem reads_when (c : Codec α) (cond : Bool) (default : α) {a : α} (hFits : c.Fits a) :
    Reads (c.readWhen cond default) (c.writeWhen cond a) (if cond then a else default) := by
  cases cond with
  | true => exact c.reads a hFits
  | false => exact Reads.pure default

/-- What is written at the front of a record tells the field and the rest. -/
theorem write_cancel (c : Codec α) {a b : α} {r s : List (List UInt8)} (ha : c.Fits a)
    (hb : c.Fits b) (hSame : (c.write a :: r).flatten = (c.write b :: s).flatten) :
    a = b ∧ r.flatten = s.flatten := by
  have hRead := c.reads a ha r.flatten
  rw [← flatten_cons, hSame, flatten_cons, c.reads b hb s.flatten] at hRead
  simpa [eq_comm] using hRead

/-- The codec of a type that embeds into another one. -/
def imap (c : Codec α) (f : β → α) (g : α → β) (hInv : ∀ b, g (f b) = b) : Codec β where
  write b := c.write (f b)
  read := g <$> c.read
  Fits b := c.Fits (f b)
  reads b hFits := by
    have hRead := (c.reads (f b) hFits).map g
    rwa [hInv] at hRead

def pair (c : Codec α) (d : Codec β) : Codec (α × β) where
  write x := [c.write x.1, d.write x.2].flatten
  read := do
    let a ← c.read
    let b ← d.read
    return (a, b)
  Fits x := c.Fits x.1 ∧ d.Fits x.2
  reads x hFits := (c.reads x.1 hFits.1).field ((d.reads x.2 hFits.2).field (.done (x.1, x.2)))

end Codec

/-! ## Numbers of a fixed width -/

/-- The lowest bytes of a number, the lowest first. -/
def bytesLE : Nat → Nat → List UInt8
  | 0, _ => []
  | k + 1, n => UInt8.ofNat n :: bytesLE k (n / 256)

def natOfLE : List UInt8 → Nat
  | [] => 0
  | b :: rest => b.toNat + 256 * natOfLE rest

theorem length_bytesLE (k n : Nat) : (bytesLE k n).length = k := by
  induction k generalizing n with
  | zero => rfl
  | succ k ih => rw [bytesLE, length_cons, ih]

theorem natOfLE_bytesLE (k n : Nat) : natOfLE (bytesLE k n) = n % 256 ^ k := by
  induction k generalizing n with
  | zero => rw [pow_zero, mod_one]; rfl
  | succ k ih =>
    have hByte : (UInt8.ofNat n).toNat = n % 256 := UInt8.toNat_ofNat'
    rw [bytesLE, natOfLE, ih, hByte, pow_succ, mul_comm (256 ^ k), mod_mul]

theorem natOfLE_append (bs cs : List UInt8) :
    natOfLE (bs ++ cs) = natOfLE bs + 256 ^ bs.length * natOfLE cs := by
  induction bs with
  | nil => simp [natOfLE]
  | cons b rest ih =>
    rw [cons_append, natOfLE, natOfLE, ih, length_cons]
    ring

theorem natOfLE_lt (bs : List UInt8) : natOfLE bs < 256 ^ bs.length := by
  induction bs with
  | nil => decide
  | cons b rest ih =>
    have hByte : b.toNat < 256 := b.toNat_lt
    rw [natOfLE, length_cons]
    omega

namespace Codec

/-- Unsigned numbers, the lowest byte first. -/
def unsigned (k : Nat) : Codec Nat where
  write n := bytesLE k n
  read := natOfLE <$> Reader.bytes k
  Fits n := n < 256 ^ k
  reads n hFits := by
    have hRead := (Reads.bytes (length_bytesLE k n)).map natOfLE
    rwa [natOfLE_bytesLE, mod_eq_of_lt hFits] at hRead

/-- Signed numbers in two's complement. -/
def signed (k : Nat) : Codec Int where
  write z := bytesLE k (z % 256 ^ k).toNat
  read := (fun bs =>
    let n := natOfLE bs
    if 2 * n < 256 ^ k then (n : Int) else (n : Int) - 256 ^ k) <$> Reader.bytes k
  Fits z := -256 ^ k ≤ 2 * z ∧ 2 * z < 256 ^ k
  reads z hFits := by
    have hRead := (Reads.bytes (length_bytesLE k (z % 256 ^ k).toNat)).map fun bs =>
      let n := natOfLE bs
      if 2 * n < 256 ^ k then (n : Int) else (n : Int) - 256 ^ k
    have hPos : (0 : Int) < 256 ^ k := by positivity
    have hPow : ((256 ^ k : Nat) : Int) = 256 ^ k := by push_cast; rfl
    have hSmall : (z % 256 ^ k).toNat < 256 ^ k := by
      have hMod := Int.emod_lt_of_pos z hPos
      have hMod' := Int.emod_nonneg z hPos.ne'
      omega
    have hBack : (if 2 * (z % 256 ^ k).toNat < 256 ^ k then ((z % 256 ^ k).toNat : Int)
        else ((z % 256 ^ k).toNat : Int) - 256 ^ k) = z := by
      rcases lt_or_ge z 0 with hNeg | hNonneg
      · have hMod : z % 256 ^ k = z + 256 ^ k := by
          rw [← Int.add_emod_right, Int.emod_eq_of_lt (by omega) (by omega)]
        rw [if_neg (by omega)]
        omega
      · have hMod : z % 256 ^ k = z := Int.emod_eq_of_lt hNonneg (by omega)
        rw [if_pos (by omega)]
        omega
    simp only [natOfLE_bytesLE, mod_eq_of_lt hSmall, hBack] at hRead
    exact hRead

def bool : Codec Bool :=
  (unsigned 1).imap (fun b => if b then 1 else 0) (fun n => n != 0) (fun b => by cases b <;> rfl)

def varInt : Codec Nat where
  write := writeVarInt
  read := readVarInt
  Fits _ := True
  reads n _ := reads_varInt n

end Codec

/-! ## Numbers in as few bytes as they take -/

/-- The bytes of a number up to its highest one, the lowest first. -/
def shortestLE (n : Nat) : List UInt8 := (Nat.digits 256 n).map UInt8.ofNat

theorem natOfLE_shortestLE (n : Nat) : natOfLE (shortestLE n) = n := by
  have hDigits : ∀ ds : List Nat, (∀ d ∈ ds, d < 256) →
      natOfLE (ds.map UInt8.ofNat) = Nat.ofDigits 256 ds := by
    intro ds hSmall
    induction ds with
    | nil => rfl
    | cons d rest ih =>
      have hByte : (UInt8.ofNat d).toNat = d := by
        rw [UInt8.toNat_ofNat', mod_eq_of_lt (hSmall d mem_cons_self)]
      rw [map_cons, natOfLE, ih fun d' hd' => hSmall d' (mem_cons_of_mem d hd'), hByte,
        ofDigits_cons]
  exact (hDigits _ fun d hd => digits_lt_base (by decide) hd).trans (ofDigits_digits 256 n)

theorem length_shortestLE_le_iff (k n : Nat) : (shortestLE n).length ≤ k ↔ n < 256 ^ k := by
  rw [shortestLE, length_map]
  exact digits_length_le_iff (by decide) n

/-! ## Counts -/

/-- A count, in one byte or behind a byte that says how many more it takes. -/
def writeCount (n : Nat) : List UInt8 :=
  if n < 253 then bytesLE 1 n
  else if n ≤ 0xFFFF then 253 :: bytesLE 2 n
  else if n ≤ 0xFFFFFFFF then 254 :: bytesLE 4 n
  else 255 :: bytesLE 8 n

/-- The number of a longer form, which must not fit the shorter ones. -/
def readLongCount (k least : Nat) : Reader Nat := do
  let n ← (Codec.unsigned k).read
  if n < least then failure else return n

/-- What follows the first byte of a count. -/
def readCountAfter (chSize : UInt8) : Reader Nat :=
  if chSize.toNat < 253 then Pure.pure chSize.toNat
  else if chSize.toNat = 253 then readLongCount 2 253
  else if chSize.toNat = 254 then readLongCount 4 0x10000
  else readLongCount 8 0x100000000

/-- Counts above the limit are not accepted. -/
def readCount (limit : Nat) : Reader Nat := do
  let chSize ← Reader.byte
  let n ← readCountAfter chSize
  if limit < n then failure else return n

theorem reads_longCount {k least n : Nat} (hLeast : least ≤ n) (hFits : n < 256 ^ k) :
    Reads (readLongCount k least) (bytesLE k n) n := by
  have hEnd : Reads (if n < least then failure else Pure.pure n : Reader Nat) [] n := by
    rw [if_neg (by omega)]
    exact Reads.pure n
  have hAll := ((Codec.unsigned k).reads n hFits).bind
    (f := fun n => if n < least then failure else Pure.pure n) hEnd
  rwa [append_nil] at hAll

/-- The first byte of a count, and the rest. -/
theorem reads_countAfter {n : Nat} (hFits : n < 256 ^ 8) :
    ∃ chSize rest, writeCount n = chSize :: rest ∧ Reads (readCountAfter chSize) rest n := by
  unfold writeCount
  split_ifs with hByte hShort hLong
  · have hSame : (UInt8.ofNat n).toNat = n := by
      rw [UInt8.toNat_ofNat', mod_eq_of_lt (by omega)]
    refine ⟨UInt8.ofNat n, [], rfl, ?_⟩
    unfold readCountAfter
    rw [hSame, if_pos hByte]
    exact Reads.pure n
  · exact ⟨253, bytesLE 2 n, rfl, reads_longCount (by omega) (by omega)⟩
  · exact ⟨254, bytesLE 4 n, rfl, reads_longCount (by omega) (by omega)⟩
  · exact ⟨255, bytesLE 8 n, rfl, reads_longCount (by omega) hFits⟩

namespace Codec

def count (limit : Nat) (hLimit : limit < 256 ^ 8) : Codec Nat where
  write := writeCount
  read := readCount limit
  Fits n := n ≤ limit
  reads n hFits := by
    have hEnd : Reads (if limit < n then failure else Pure.pure n : Reader Nat) [] n := by
      rw [if_neg (by omega)]
      exact Reads.pure n
    obtain ⟨chSize, rest, hWrite, hRead⟩ := reads_countAfter (lt_of_le_of_lt hFits hLimit)
    have hAll : Reads (readCount limit) ([chSize] ++ (rest ++ [])) n :=
      (Reads.byte chSize).bind (hRead.bind hEnd)
    rw [append_nil] at hAll
    rw [hWrite]
    exact hAll

/-- A list, behind the number of its elements. -/
def list {α : Type} (size : Codec Nat) (c : Codec α) : Codec (List α) where
  write l := size.write l.length ++ l.flatMap c.write
  read := do
    let n ← size.read
    (replicate n ()).mapM fun _ => c.read
  Fits l := size.Fits l.length ∧ ∀ a ∈ l, c.Fits a
  reads l hFits := by
    refine (size.reads l.length hFits.1).bind ?_
    have hAll : Reads (l.mapM fun _ => c.read) (l.flatMap c.write) (l.map id) :=
      Reads.listOf l fun a ha => c.reads a (hFits.2 a ha)
    rw [map_id] at hAll
    have hSame : ((replicate l.length ()).mapM fun _ => c.read) = l.mapM fun _ => c.read := by
      rw [← map_const', mapM_map]
      rfl
    rw [hSame]
    exact hAll

/-- Bytes, behind their number. -/
def raw (size : Codec Nat) : Codec (List UInt8) where
  write bs := size.write bs.length ++ bs
  read := do
    let n ← size.read
    Reader.bytes n
  Fits bs := size.Fits bs.length
  reads bs hFits := (size.reads bs.length hFits).bind (Reads.bytes rfl)

/-- Texts, as the bytes that encode them. -/
def text (size : Codec Nat) : Codec String where
  write s := (raw size).write s.toByteArray.data.toList
  read := do
    let bs ← (raw size).read
    match String.fromUTF8? ⟨bs.toArray⟩ with
    | some s => return s
    | none => failure
  Fits s := size.Fits s.toByteArray.data.toList.length
  reads s hFits := by
    have hBack : String.fromUTF8? ⟨s.toByteArray.data.toList.toArray⟩ = some s := by
      rw [Array.toArray_toList]
      show String.fromUTF8? s.toByteArray = some s
      rw [String.fromUTF8?, dif_pos s.isValidUTF8]
      rfl
    have hEnd : Reads (match String.fromUTF8? ⟨s.toByteArray.data.toList.toArray⟩ with
        | some s => Pure.pure s
        | none => failure : Reader String) [] s := by
      rw [hBack]
      exact Reads.pure s
    have hAll := ((raw size).reads _ hFits).bind
      (f := fun bs => match String.fromUTF8? ⟨bs.toArray⟩ with
        | some s => Pure.pure s
        | none => failure) hEnd
    rwa [append_nil] at hAll

section Maps

variable {κ α : Type} [Ord κ] [Std.TransOrd κ] [Std.LawfulEqOrd κ] [DecidableEq κ]

/-- The map with the entries of a list; of two entries under one key the first stays. -/
def mapOfList (l : List (κ × α)) : Map κ α :=
  l.foldl (fun m it => m.alter it.1 fun old => old.or (some it.2)) ∅

theorem mapOfList_toList (m : Map κ α) : mapOfList m.toList = m := by
  refine Std.ExtTreeMap.ext_getElem? fun k => ?_
  have hAt := Map.getElem?_pour (fun old a => old.or (some a)) (∅ : Map κ α) m k
  refine hAt.trans ?_
  cases m[k]? <;> rfl

/-- An ordered map, as the list of its entries. -/
def map (size : Codec Nat) (c : Codec κ) (d : Codec α) : Codec (Map κ α) :=
  (list size (c.pair d)).imap (fun m => m.toList) mapOfList mapOfList_toList

end Maps

end Codec

end Electrum
