import Electrum.Validation.Transaction

/-!
# Under which address an output is filed

The address indexes file an output under a type and a hash.  `ConnectBlock` and `DisconnectBlock`
derive them in four blocks of code: for the outputs a transaction spends and for those it creates,
when it is connected and when it is disconnected.  Here are the four, and the address that an output
should be attributed to.

Main results:
* `exists_form` — the forms of scripts exclude each other
* `connectInput_unspent`, `connectOutput_unspent`, `undoFiling_unspent` — which outputs are filed under
  their address
* `connectInput_items`, `connectOutput_items` — the history items are found again
-/

namespace Electrum

open List

namespace CScript

def isPayToScriptHash (s : CScript) : Bool :=
  s.hasShape 23 [(0, OP_HASH160), (1, 0x14), (22, OP_EQUAL)]

def isPayToPublicKey (s : CScript) : Bool := s.hasShape 35 [(0, 0x21), (34, OP_CHECKSIG)]

/-- The bytes from one position up to another. -/
def slice (s : CScript) (first last : Nat) : List UInt8 := (s.drop first).take (last - first)

/-- A public key is paid to that starts like none. -/
def isBadPublicKey (s : CScript) : Bool :=
  s.isPayToPublicKey && s[1]? != some 2 && s[1]? != some 3

/-- `ReadLE16` and `ReadLE32`, and a single byte. -/
def readLE (bytes : List UInt8) : Nat := bytes.foldr (fun b n => b.toNat + 256 * n) 0

/-- `GetOp2`: an opcode, its operand, and what follows. -/
def getOp : CScript → Option (UInt8 × List UInt8 × CScript)
  | [] => none
  | opcode :: pc =>
    if OP_PUSHDATA4 < opcode then some (opcode, [], pc)
    else
      -- the bytes that hold the size, where the opcode is not the size itself
      let nWidth := if opcode == OP_PUSHDATA1 then 1 else if opcode == OP_PUSHDATA2 then 2
        else if opcode == OP_PUSHDATA4 then 4 else 0
      let nSize := if opcode < OP_PUSHDATA1 then opcode.toNat else readLE (pc.take nWidth)
      if pc.length < nWidth + nSize then none
      else some (opcode, (pc.drop nWidth).take nSize, (pc.drop nWidth).drop nSize)

/-- `Solver`, for the template `OP_PUBKEY OP_CHECKSIG`. -/
def solvePubKey (s : CScript) : Option (List UInt8) :=
  (getOp s).bind fun (_, vch, pc) =>
    if 33 ≤ vch.length ∧ vch.length ≤ 65 ∧ pc = [OP_CHECKSIG] then some vch else none

/-- `Solver`, for the template `OP_DUP OP_HASH160 OP_PUBKEYHASH OP_EQUALVERIFY OP_CHECKSIG`. -/
def solvePubKeyHash : CScript → Option (List UInt8)
  | op :: op' :: s => (getOp s).bind fun (_, vch, pc) =>
    if op = OP_DUP ∧ op' = OP_HASH160 ∧ vch.length = 20 ∧ pc = [OP_EQUALVERIFY, OP_CHECKSIG] then
      some vch
    else none
  | _ => none

end CScript

namespace CPubKey

def getLen (chHeader : UInt8) : Nat :=
  if chHeader == 2 || chHeader == 3 then 33
  else if chHeader == 4 || chHeader == 6 || chHeader == 7 then 65
  else 0

/-- `CPubKey(vch).IsValid()`. -/
def isValid (vch : List UInt8) : Bool := vch.head?.any fun chHeader => getLen chHeader == vch.length

end CPubKey

/-- A key is paid to, or the hash of one, in a way that `ConnectBlock` does not look for. -/
def CScript.isUnfiledKey (s : CScript) : Bool :=
  !s.isPayToPublicKey && !s.isPayToPublicKeyHash && match s.solvePubKey with
    | some vch => CPubKey.isValid vch
    | none => s.solvePubKeyHash.isSome

/-! ## Addresses -/

/-- The bytes of a `uint160`. -/
abbrev UInt160 := List UInt8

def UInt160.null : UInt160 := replicate 20 0

inductive CTxDestination where
  | keyID (id : UInt160)
  | scriptID (id : UInt160)
  | coldStaking (staking spending : UInt160)
  | coldStakingv2 (staking spending voting : UInt160)
  deriving DecidableEq, Repr

namespace CTxDestination

def getSpendingAddress : CTxDestination → Option CTxDestination
  | coldStaking _ spending => some (keyID spending)
  | coldStakingv2 _ spending _ => some (keyID spending)
  | _ => none

def getStakingAddress : CTxDestination → Option CTxDestination
  | coldStaking staking _ => some (keyID staking)
  | coldStakingv2 staking _ _ => some (keyID staking)
  | _ => none

def getVotingAddress : CTxDestination → Option CTxDestination
  | coldStakingv2 _ _ voting => some (keyID voting)
  | _ => none

end CTxDestination

/-- What the indexes depend on: the two switches, the hash, and what is in an unset variable for
each input. -/
structure Indexing where
  fAddressIndex : Bool
  fSpentIndex : Bool
  hash160 : List UInt8 → UInt160
  unset : COutPoint → Nat

namespace Indexing

variable (x : Indexing)

/-- The hash of the key that `Solver` finds with its templates.  The types of scripts that it looks
for before have no address, and start with other opcodes. -/
def templateKey (s : CScript) : Option UInt160 :=
  match s.solvePubKey with
  | some vch => if CPubKey.isValid vch then some (x.hash160 vch) else none
  | none => s.solvePubKeyHash

def extractDestination (s : CScript) : Option CTxDestination :=
  if s.isPayToScriptHash then some (.scriptID (s.slice 2 22))
  else if s.isColdStaking then some (.coldStaking (s.slice 5 25) (s.slice 31 51))
  else if s.isColdStakingv2 then
    some (.coldStakingv2 (s.slice 27 47) (s.slice 53 73) (s.slice 1 21))
  else (x.templateKey s).map .keyID

/-- `GetIndexKey`.  Where there is no address the hash and the type stay as they were. -/
def getIndexKey (address : Option CTxDestination) (old : UInt160 × Nat) : UInt160 × Nat :=
  match address with
  | none => old
  | some (.keyID id) => (id, 1)
  | some (.scriptID id) => (id, 2)
  | some (.coldStaking staking spending) => (x.hash160 (staking ++ spending), 3)
  | some (.coldStakingv2 staking spending voting) =>
    (x.hash160 (staking ++ spending ++ voting), 4)

/-- The type and the hash of the address that an output is attributed to, for cold staking that of
the spending key. -/
def ownerKey (s : CScript) : Option (Nat × UInt160) :=
  match x.extractDestination s with
  | none => none
  | some (.keyID id) => some (1, id)
  | some (.scriptID id) => some (2, id)
  | some (.coldStaking _ spending) => some (1, spending)
  | some (.coldStakingv2 _ spending _) => some (1, spending)

end Indexing

/-! ## The four blocks of code -/

/-- An entry of the address history, and which of its amounts change. -/
structure HistoryItem where
  hashBytes : UInt160
  hashBytes2 : UInt160
  spendable : Bool
  stakable : Bool
  votingWeight : Bool
  deriving DecidableEq, Repr

/-- The type and the hash in the address index, the same in the unspent index, and the entries in
the history. -/
structure Filing where
  address : Nat × UInt160
  unspent : Nat × UInt160
  items : List HistoryItem
  deriving DecidableEq, Repr

/-- The history of an address of one key. -/
def plainItems (hashBytes : UInt160) : List HistoryItem :=
  [⟨hashBytes, hashBytes, true, true, true⟩]

/-- The history of a cold staking address. -/
def coldItems (hashBytes spending staking : UInt160) : List HistoryItem :=
  [⟨hashBytes, spending, true, false, false⟩, ⟨spending, spending, true, false, false⟩,
    ⟨hashBytes, staking, false, true, true⟩, ⟨staking, staking, false, true, true⟩]

/-- The history of a cold staking address with a voting key. -/
def coldv2Items (hashBytes spending staking voting : UInt160) : List HistoryItem :=
  [⟨hashBytes, spending, true, false, false⟩, ⟨spending, spending, true, false, false⟩,
    ⟨hashBytes, staking, false, true, false⟩, ⟨staking, staking, false, true, false⟩,
    ⟨hashBytes, voting, false, false, true⟩, ⟨voting, voting, false, false, true⟩]

namespace Indexing

variable (x : Indexing)

/-- The hash of one of the keys of a cold staking address. -/
def keyHash (address : Option CTxDestination)
    (key : CTxDestination → Option CTxDestination) : UInt160 :=
  (x.getIndexKey (address.bind key) (.null, 0)).1

/-- `ConnectBlock`, for an output that is spent; it is filed if the type is not 0. -/
def connectInput (prevout : COutPoint) (s : CScript) : Filing :=
  let address := x.extractDestination s
  if s.isPayToScriptHash then
    -- the hash is in a variable of the branch, and the one that is filed stays null
    ⟨(2, .null), (2, .null), plainItems (s.slice 2 22)⟩
  else if s.isPayToPublicKeyHash || s.isPayToPublicKey then
    let key := x.getIndexKey address (.null, x.unset prevout)
    ⟨(key.2, key.1), (key.2, key.1), plainItems key.1⟩
  else if s.isColdStaking then
    let key := x.getIndexKey address (.null, x.unset prevout)
    let spending := x.getIndexKey (address.bind (·.getSpendingAddress)) (.null, key.2)
    ⟨(spending.2, spending.1), (spending.2, spending.1),
      coldItems key.1 spending.1 (x.keyHash address (·.getStakingAddress))⟩
  else if s.isColdStakingv2 then
    let key := x.getIndexKey address (.null, x.unset prevout)
    let spending := x.getIndexKey (address.bind (·.getSpendingAddress)) (.null, key.2)
    ⟨(spending.2, spending.1), (spending.2, spending.1),
      coldv2Items key.1 spending.1 (x.keyHash address (·.getStakingAddress))
        (x.keyHash address (·.getVotingAddress))⟩
  else ⟨(0, .null), (0, .null), []⟩

/-- `ConnectBlock`, for an output that is created. -/
def connectOutput (s : CScript) : Option Filing :=
  let address := x.extractDestination s
  if s.isPayToScriptHash then
    some ⟨(2, s.slice 2 22), (2, s.slice 2 22), plainItems (s.slice 2 22)⟩
  else if s.isColdStaking then
    let key := x.getIndexKey address (.null, 0)
    let spending := x.getIndexKey (address.bind (·.getSpendingAddress)) (.null, key.2)
    some ⟨(spending.2, key.1), (spending.2, spending.1),
      coldItems key.1 spending.1 (x.keyHash address (·.getStakingAddress))⟩
  else if s.isColdStakingv2 then
    -- the spending key comes first here, so the type is that of the whole address
    let spending := x.getIndexKey (address.bind (·.getSpendingAddress)) (.null, 0)
    let key := x.getIndexKey address (.null, spending.2)
    some ⟨(key.2, key.1), (key.2, spending.1),
      coldv2Items key.1 spending.1 (x.keyHash address (·.getStakingAddress))
        (x.keyHash address (·.getVotingAddress))⟩
  else if s.isPayToPublicKey || s.isPayToPublicKeyHash then
    let key := x.getIndexKey address (.null, 0)
    some ⟨(key.2, key.1), (key.2, key.1), plainItems key.1⟩
  else none

/-- `DisconnectBlock`, which has the same code for an output that was created and for one that was
spent. -/
def undoFiling (s : CScript) : Option Filing :=
  let address := x.extractDestination s
  if s.isPayToScriptHash then
    some ⟨(2, s.slice 2 22), (2, s.slice 2 22), plainItems (s.slice 2 22)⟩
  else if s.isPayToPublicKey || s.isPayToPublicKeyHash then
    let key := x.getIndexKey address (.null, 0)
    some ⟨(key.2, key.1), (key.2, key.1), plainItems key.1⟩
  else if s.isColdStaking || s.isColdStakingv2 then
    let key := x.getIndexKey address (.null, 0)
    let spending := x.getIndexKey (address.bind (·.getSpendingAddress)) (.null, key.2)
    let staking := x.keyHash address (·.getStakingAddress)
    some ⟨(spending.2, key.1), (spending.2, spending.1), if s.isColdStakingv2 then
        coldv2Items key.1 spending.1 staking (x.keyHash address (·.getVotingAddress))
      else coldItems key.1 spending.1 staking⟩
  else none

end Indexing

/-! ## The forms of scripts -/

/-- The forms of scripts that are filed. -/
inductive ScriptForm where
  | scriptHash
  | publicKey
  | publicKeyHash
  | coldStaking
  | coldStakingv2
  | other
  deriving DecidableEq

/-- The script is of this form and of no other. -/
structure CScript.HasForm (s : CScript) (form : ScriptForm) : Prop where
  scriptHash : s.isPayToScriptHash = decide (form = .scriptHash)
  publicKey : s.isPayToPublicKey = decide (form = .publicKey)
  publicKeyHash : s.isPayToPublicKeyHash = decide (form = .publicKeyHash)
  coldStaking : s.isColdStaking = decide (form = .coldStaking)
  coldStakingv2 : s.isColdStakingv2 = decide (form = .coldStakingv2)

variable {s : CScript} {n : Nat} {bytes : List (Nat × UInt8)}

theorem CScript.hasShape_of_length (h : s.length ≠ n) : s.hasShape n bytes = false := by
  cases hShape : s.hasShape n bytes with
  | false => rfl
  | true => exact absurd (length_of_hasShape hShape) h

/-- A script that starts with another opcode than `OP_RETURN` can be spent. -/
theorem CScript.spendable_of_hasShape {b : UInt8}
    (h : s.hasShape n ((0, b) :: bytes) = true) (hOp : b ≠ OP_RETURN)
    (hSize : n ≤ MAX_SCRIPT_SIZE) : s.isUnspendable = false := by
  simp only [hasShape, all_cons, Bool.and_eq_true, beq_iff_eq] at h
  have hHead : s.head? = some b := head?_eq_getElem?.trans h.2.1
  have hSmall : ¬MAX_SCRIPT_SIZE < s.length := by omega
  simp [isUnspendable, hHead, hOp, hSmall]

/-- **The forms exclude each other.** Their lengths differ. -/
theorem CScript.exists_form (s : CScript) : ∃ form, s.HasForm form := by
  have hOther : ∀ {n m : Nat} {bytes : List (Nat × UInt8)}, s.length = n → n ≠ m →
      s.hasShape m bytes = false := fun hLength hNe => hasShape_of_length (hLength ▸ hNe)
  by_cases h23 : s.isPayToScriptHash = true
  · have hLength := length_of_hasShape h23
    exact ⟨.scriptHash, h23, hOther hLength (by decide), hOther hLength (by decide),
      hOther hLength (by decide), hOther hLength (by decide)⟩
  by_cases h35 : s.isPayToPublicKey = true
  · have hLength := length_of_hasShape h35
    exact ⟨.publicKey, hOther hLength (by decide), h35, hOther hLength (by decide),
      hOther hLength (by decide), hOther hLength (by decide)⟩
  by_cases h25 : s.isPayToPublicKeyHash = true
  · have hLength := length_of_hasShape h25
    exact ⟨.publicKeyHash, hOther hLength (by decide), hOther hLength (by decide), h25,
      hOther hLength (by decide), hOther hLength (by decide)⟩
  by_cases h54 : s.isColdStaking = true
  · have hLength := length_of_hasShape h54
    exact ⟨.coldStaking, hOther hLength (by decide), hOther hLength (by decide),
      hOther hLength (by decide), h54, hOther hLength (by decide)⟩
  by_cases h76 : s.isColdStakingv2 = true
  · have hLength := length_of_hasShape h76
    exact ⟨.coldStakingv2, hOther hLength (by decide), hOther hLength (by decide),
      hOther hLength (by decide), hOther hLength (by decide), h76⟩
  exact ⟨.other, eq_false_of_ne_true h23, eq_false_of_ne_true h35, eq_false_of_ne_true h25,
    eq_false_of_ne_true h54, eq_false_of_ne_true h76⟩

/-! ## Where the outputs are filed -/

theorem CScript.HasForm.all {form : ScriptForm} (h : s.HasForm form) :
    s.isPayToScriptHash = decide (form = .scriptHash) ∧
      s.isPayToPublicKey = decide (form = .publicKey) ∧
      s.isPayToPublicKeyHash = decide (form = .publicKeyHash) ∧
      s.isColdStaking = decide (form = .coldStaking) ∧
      s.isColdStakingv2 = decide (form = .coldStakingv2) :=
  ⟨h.1, h.2, h.3, h.4, h.5⟩

theorem CScript.HasForm.goodKey {form : ScriptForm} (h : s.HasForm form)
    (hNot : form ≠ .publicKey) : s.isBadPublicKey = false := by
  rw [isBadPublicKey, h.publicKey, decide_eq_false hNot]
  rfl

theorem drop_of_last {α : Type} {l : List α} {n : Nat} {a : α} (hLength : l.length = n + 1)
    (h : l[n]? = some a) : l.drop n = [a] := by
  obtain ⟨hLt, hGet⟩ := List.getElem?_eq_some_iff.mp h
  rw [drop_eq_getElem_cons hLt, hGet, drop_eq_nil_of_le hLength.le]

namespace Indexing

variable (x : Indexing) {s : CScript}

/-! ### Templates -/

/-- A key in the form that `ConnectBlock` looks for is read as it is there. -/
theorem templateKey_publicKey (h : s.isPayToPublicKey = true) : x.templateKey s =
    if s.isBadPublicKey then none else some (x.hash160 (s.slice 1 34)) := by
  have hLength := CScript.length_of_hasShape h
  have hBytes := h
  simp only [CScript.isPayToPublicKey, CScript.hasShape, all_cons, all_nil,
    Bool.and_eq_true, beq_iff_eq, and_true] at hBytes
  obtain ⟨-, hFirst, hLast⟩ := hBytes
  match s, hLength with
  | op :: pc, hLength =>
    obtain rfl : op = 0x21 := Option.some.inj hFirst
    have hPc : pc.length = 34 := by simpa using hLength
    have hSolve : CScript.solvePubKey (0x21 :: pc) = some (pc.take 33) := by
      have hOp : CScript.getOp (0x21 :: pc) = if pc.length < 0 + 33 then none
          else some (0x21, pc.take 33, pc.drop 33) := rfl
      rw [CScript.solvePubKey, hOp, if_neg (by omega), Option.bind_some]
      refine if_pos ⟨?_, ?_, drop_of_last hPc hLast⟩ <;> rw [length_take] <;> omega
    have hValid : CPubKey.isValid (pc.take 33) = !CScript.isBadPublicKey (0x21 :: pc) := by
      rw [CScript.isBadPublicKey, h, CPubKey.isValid]
      match pc, hPc with
      | b :: rest, hPc =>
        rw [length_take, hPc]
        show (CPubKey.getLen b == 33) = !(true && some b != some 2 && some b != some 3)
        unfold CPubKey.getLen
        by_cases hEven : b = 2
        · rw [hEven]
          rfl
        by_cases hOdd : b = 3
        · rw [hOdd]
          rfl
        · rw [if_neg (by simp [hEven, hOdd])]
          split <;> simp [hEven, hOdd]
    rw [templateKey, hSolve]
    dsimp only
    rw [hValid]
    cases CScript.isBadPublicKey (0x21 :: pc) <;> rfl

/-- The same for the hash of a key. -/
theorem templateKey_publicKeyHash (h : s.isPayToPublicKeyHash = true) :
    x.templateKey s = some (s.slice 3 23) := by
  have hLength := CScript.length_of_hasShape h
  simp only [CScript.isPayToPublicKeyHash, CScript.hasShape, all_cons, all_nil,
    Bool.and_eq_true, beq_iff_eq, and_true] at h
  obtain ⟨-, hDup, hHash, hSize, hVerify, hSig⟩ := h
  match s, hLength with
  | op :: op' :: op'' :: pc, hLength =>
    obtain rfl : op = OP_DUP := Option.some.inj hDup
    obtain rfl : op' = OP_HASH160 := Option.some.inj hHash
    obtain rfl : op'' = 0x14 := Option.some.inj hSize
    have hPc : pc.length = 22 := by simpa using hLength
    have hDrop : pc.drop 20 = [OP_EQUALVERIFY, OP_CHECKSIG] := by
      have hAt : pc[20]? = some OP_EQUALVERIFY := hVerify
      obtain ⟨hLt, hGet⟩ := List.getElem?_eq_some_iff.mp hAt
      rw [drop_eq_getElem_cons hLt, hGet, drop_of_last hPc hSig]
    have hKey : CScript.solvePubKey (OP_DUP :: OP_HASH160 :: 0x14 :: pc) = none := rfl
    have hOp : CScript.getOp (0x14 :: pc) = if pc.length < 0 + 20 then none
        else some (0x14, pc.take 20, pc.drop 20) := rfl
    rw [templateKey, hKey]
    dsimp only
    rw [CScript.solvePubKeyHash, hOp, if_neg (by omega), Option.bind_some]
    refine if_pos ⟨rfl, rfl, ?_, hDrop⟩
    rw [length_take]
    omega

theorem templateKey_other (h : s.isUnfiledKey = false) (hKey : s.isPayToPublicKey = false)
    (hHash : s.isPayToPublicKeyHash = false) : x.templateKey s = none := by
  unfold CScript.isUnfiledKey at h
  unfold templateKey
  rw [hKey, hHash] at h
  cases hSolve : s.solvePubKey with
  | some vch =>
    rw [hSolve] at h
    exact if_neg (by simpa using h)
  | none =>
    rw [hSolve] at h
    simpa using h

/-! ### Filing -/

theorem extractDestination_form {form : ScriptForm} (hForm : s.HasForm form) :
    x.extractDestination s = match form with
      | .scriptHash => some (.scriptID (s.slice 2 22))
      | .publicKey => if s.isBadPublicKey then none else some (.keyID (x.hash160 (s.slice 1 34)))
      | .publicKeyHash => some (.keyID (s.slice 3 23))
      | .coldStaking => some (.coldStaking (s.slice 5 25) (s.slice 31 51))
      | .coldStakingv2 => some (.coldStakingv2 (s.slice 27 47) (s.slice 53 73) (s.slice 1 21))
      | .other => (x.templateKey s).map .keyID := by
  cases form with
  | publicKey =>
    simp only [extractDestination, hForm.all, x.templateKey_publicKey hForm.publicKey]
    cases s.isBadPublicKey <;> rfl
  | publicKeyHash =>
    simp [extractDestination, hForm.all, x.templateKey_publicKeyHash hForm.publicKeyHash]
  | _ => simp [extractDestination, hForm.all]

/-- An output that is not filed has no address, unless it pays to a key in another way. -/
theorem extractDestination_other (hForm : s.HasForm .other) (hFiled : s.isUnfiledKey = false) :
    x.extractDestination s = none := by
  rw [x.extractDestination_form hForm]
  dsimp only
  rw [x.templateKey_other hFiled hForm.publicKey hForm.publicKeyHash]
  rfl

/-- Outputs that have an address can be spent. -/
theorem ownerKey_spendable {key : Nat × UInt160} (hFiled : s.isUnfiledKey = false)
    (h : x.ownerKey s = some key) : s.isUnspendable = false := by
  obtain ⟨form, hForm⟩ := s.exists_form
  cases form with
  | scriptHash => exact CScript.spendable_of_hasShape hForm.scriptHash (by decide) (by decide)
  | publicKey => exact CScript.spendable_of_hasShape hForm.publicKey (by decide) (by decide)
  | publicKeyHash => exact CScript.spendable_of_hasShape hForm.publicKeyHash (by decide) (by decide)
  | coldStaking => exact CScript.spendable_of_hasShape hForm.coldStaking (by decide) (by decide)
  | coldStakingv2 =>
    exact CScript.spendable_of_hasShape hForm.coldStakingv2 (by decide) (by decide)
  | other =>
    rw [ownerKey, x.extractDestination_other hForm hFiled] at h
    cases h

/-- **An output that is spent** is looked for under its address, unless a script hash is paid to or
there is no key. -/
theorem connectInput_unspent (prevout : COutPoint)
    (hScript : s.isPayToScriptHash = true → s.slice 2 22 = UInt160.null)
    (hKey : s.isBadPublicKey = false) (hFiled : s.isUnfiledKey = false) :
    (if 0 < (x.connectInput prevout s).unspent.1 then some (x.connectInput prevout s).unspent
      else none) = x.ownerKey s := by
  obtain ⟨form, hForm⟩ := s.exists_form
  cases form with
  | scriptHash =>
    have hNull := hScript hForm.scriptHash
    simp [ownerKey, connectInput, x.extractDestination_form hForm, hForm.all, hNull]
  | other => simp [ownerKey, connectInput, x.extractDestination_other hForm hFiled, hForm.all]
  | _ =>
    simp [ownerKey, connectInput, x.extractDestination_form hForm, getIndexKey, hForm.all, hKey,
      CTxDestination.getSpendingAddress]

/-- **An output that is created** is filed under its address, unless it has a voting key or there is
no key. -/
theorem connectOutput_unspent (hCold : s.isColdStakingv2 = false)
    (hKey : s.isBadPublicKey = false) (hFiled : s.isUnfiledKey = false) :
    (x.connectOutput s).map (·.unspent) = x.ownerKey s := by
  obtain ⟨form, hForm⟩ := s.exists_form
  cases form with
  | coldStakingv2 =>
    rw [hForm.coldStakingv2] at hCold
    cases hCold
  | other => simp [ownerKey, connectOutput, x.extractDestination_other hForm hFiled, hForm.all]
  | _ =>
    simp [ownerKey, connectOutput, x.extractDestination_form hForm, getIndexKey, hForm.all, hKey,
      CTxDestination.getSpendingAddress]

/-- **Disconnecting** files every output under its address, if there is a key that is looked for. -/
theorem undoFiling_unspent (hKey : s.isBadPublicKey = false) (hFiled : s.isUnfiledKey = false) :
    (x.undoFiling s).map (·.unspent) = x.ownerKey s := by
  obtain ⟨form, hForm⟩ := s.exists_form
  cases form with
  | other => simp [ownerKey, undoFiling, x.extractDestination_other hForm hFiled, hForm.all]
  | _ =>
    simp [ownerKey, undoFiling, x.extractDestination_form hForm, getIndexKey, hForm.all, hKey,
      CTxDestination.getSpendingAddress]

theorem getIndexKey_hash (address : Option CTxDestination) (hash : UInt160) (type type' : Nat) :
    (x.getIndexKey address (hash, type)).1 = (x.getIndexKey address (hash, type')).1 := by
  rcases address with - | (- | - | - | -) <;> rfl

/-- **The history of an output that is spent** is the one that disconnecting finds. -/
theorem connectInput_items (prevout : COutPoint) :
    (x.connectInput prevout s).items = ((x.undoFiling s).map (·.items)).getD [] := by
  have hHash := x.getIndexKey_hash (x.extractDestination s) UInt160.null (x.unset prevout) 0
  obtain ⟨form, hForm⟩ := s.exists_form
  cases form <;>
    simp [connectInput, undoFiling, hForm.all, hHash, x.getIndexKey_hash _ _ (Prod.snd _) 0]

/-- **The history of an output that is created** is the one that disconnecting finds. -/
theorem connectOutput_items :
    (x.connectOutput s).map (·.items) = (x.undoFiling s).map (·.items) := by
  obtain ⟨form, hForm⟩ := s.exists_form
  cases form <;>
    simp [connectOutput, undoFiling, hForm.all, x.getIndexKey_hash _ _ (Prod.snd _) 0]

/-- **The address of an output that is created** is the one that disconnecting finds, unless it has
a voting key. -/
theorem connectOutput_address_iff :
    (x.connectOutput s).map (·.address) = (x.undoFiling s).map (·.address) ↔
      s.isColdStakingv2 = false := by
  obtain ⟨form, hForm⟩ := s.exists_form
  cases form <;>
    simp [connectOutput, undoFiling, x.extractDestination_form hForm, getIndexKey, hForm.all,
      CTxDestination.getSpendingAddress]

/-- Disconnecting finds the address under which an output was filed when it was spent. -/
@[mk_iff]
structure SpentAlike (prevout : COutPoint) (s : CScript) : Prop where
  scriptHash : s.isPayToScriptHash = true → s.slice 2 22 = UInt160.null
  badKey : s.isBadPublicKey = true → x.unset prevout = 0
  coldStaking : s.isColdStaking = true → x.hash160 (s.slice 5 25 ++ s.slice 31 51) = s.slice 31 51
  coldStakingv2 : s.isColdStakingv2 = true →
    x.hash160 (s.slice 27 47 ++ s.slice 53 73 ++ s.slice 1 21) = s.slice 53 73

/-- **The address of an output that is spent.** -/
theorem connectInput_address_iff (prevout : COutPoint) : (0 < (x.connectInput prevout s).address.1 →
      (x.undoFiling s).map (·.address) = some (x.connectInput prevout s).address) ↔
      x.SpentAlike prevout s := by
  rw [spentAlike_iff]
  obtain ⟨form, hForm⟩ := s.exists_form
  cases form with
  | scriptHash =>
    simp [connectInput, undoFiling, hForm.all, hForm.goodKey]
  | publicKey =>
    cases hKey : s.isBadPublicKey with
    | true =>
      simp [connectInput, undoFiling, x.extractDestination_form hForm, getIndexKey, hForm.all, hKey]
      omega
    | false =>
      simp [connectInput, undoFiling, x.extractDestination_form hForm, getIndexKey, hForm.all, hKey]
  | _ =>
    simp [connectInput, undoFiling, x.extractDestination_form hForm, getIndexKey, hForm.all,
      hForm.goodKey, CTxDestination.getSpendingAddress]

end Indexing

end Electrum
