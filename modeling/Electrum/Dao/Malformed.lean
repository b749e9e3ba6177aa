import Electrum.Dao.Accepted

/-!
# Malformed metadata

`IsValidProposal` and `IsValidPaymentRequest` catch what parsing the metadata throws, but read its
numbers after that: `get_int64` throws on a JSON number that is no 64-bit integer.  The message for
a request whose proposal has no valid address throws as well.

Main results:
* `validators_return_iff` — when the two validators return
-/

namespace Electrum

open Option

/-- A number, if it is one, is a 64-bit integer. -/
def UniValue.Integral (u : UniValue) : Prop := u.isNum = true → u.getInt64.isSome = true

/-- The fields that a proposal must have, of the types they must have. -/
def hasProposalFields (metadata : UniValue) : Bool :=
  (metadata.findValue "n").isNum && (metadata.findValue "a").isStr &&
    (metadata.findValue "d").isNum && (metadata.findValue "s").isStr

/-- The fields that a payment request must have, of the types they must have. -/
def hasRequestFields (metadata : UniValue) : Bool :=
  (metadata.findValue "n").isNum && (metadata.findValue "s").isStr &&
    (metadata.findValue "h").isStr && (metadata.findValue "i").isStr

/-- What a validator reads from metadata that is short enough, parses to an object and has the
fields. -/
def WhenRead (node : Node) (strDZeel : String) (hasFields : UniValue → Bool)
    (P : UniValue → Prop) : Prop :=
  strDZeel.utf8ByteSize ≤ 1024 → ∀ metadata, node.readObject strDZeel = some metadata →
    hasFields metadata = true → P metadata

/-- The proposal that a payment request names has a valid address, if it is reached and accepted. -/
def ParentAddressValid (node : Node) (view : CStateView) (metadata : UniValue) : Prop :=
  ∀ nAmount hash proposal, (metadata.findValue "n").getInt64 = some nAmount → 0 ≤ nAmount →
    (metadata.findValue "h").getStr = some hash → view.getProposal (uint256S hash) = some proposal →
    proposal.getLastState node.mapBlockIndex = .accepted →
    node.isValidAddress proposal.ownerAddress = true

section Reading

variable {node : Node} {view : CStateView} {tx : CTransaction} {nMaskVersion : Nat}
  {metadata : UniValue}

theorem metadataVersion_isSome_iff (default : Int) :
    (metadataVersion metadata default).isSome = true ↔ (metadata.findValue "v").Integral := by
  unfold metadataVersion UniValue.Integral
  dsimp only
  split
  next hNum => simp [hNum]
  next hNum => simp [hNum]

theorem UniValue.integral_iff_of_isNum {u : UniValue} (hNum : u.isNum = true) :
    u.Integral ↔ ∃ z, u.getInt64 = some z := by
  rw [← isSome_iff_exists]
  exact ⟨fun h => h hNum, fun h _ => h⟩

theorem UniValue.getStr_of_isStr {u : UniValue} (hStr : u.isStr = true) :
    ∃ val, u.getStr = some val :=
  isSome_iff_exists.mp ((isStr_eq u).symm.trans hStr)

/-- The frame of both validators: only what comes after the tests of length, syntax and types can
throw. -/
theorem read_isSome_iff (node : Node) (strDZeel : String) (hasFields : UniValue → Bool)
    (body : UniValue → Option Bool) :
    isSome (if 1024 < strDZeel.utf8ByteSize then some false else match node.readObject strDZeel with
      | none => some false
      | some metadata => if !hasFields metadata then some false else body metadata) = true ↔
    WhenRead node strDZeel hasFields fun metadata => (body metadata).isSome = true := by
  unfold WhenRead
  split
  case isTrue hLong => exact iff_of_true rfl fun hShort => absurd hLong (by omega)
  case isFalse hShort =>
    rw [forall_prop_of_true (not_lt.mp hShort)]
    cases node.readObject strDZeel with
    | none => exact iff_of_true rfl fun _ h => nomatch h
    | some metadata =>
      simp only [some.injEq, forall_eq']
      cases hasFields metadata with
      | false => exact iff_of_true rfl fun h => nomatch h
      | true => simp

theorem WhenRead.congr {strDZeel : String} {hasFields : UniValue → Bool} {P Q : UniValue → Prop}
    (h : ∀ metadata, hasFields metadata = true → (P metadata ↔ Q metadata)) :
    WhenRead node strDZeel hasFields P ↔ WhenRead node strDZeel hasFields Q :=
  forall_congr' fun _ => forall_congr' fun metadata => forall_congr' fun _ =>
    forall_congr' fun hFields => h metadata hFields

theorem isValidProposal_isSome_iff : (isValidProposal node view tx nMaskVersion).isSome = true ↔
      WhenRead node tx.strDZeel hasProposalFields fun metadata =>
        ∀ key ∈ ["n", "d", "v"], (metadata.findValue key).Integral := by
  refine (read_isSome_iff node tx.strDZeel hasProposalFields _).trans (WhenRead.congr ?_)
  intro metadata hFields
  simp only [hasProposalFields, Bool.and_eq_true] at hFields
  obtain ⟨ownerAddress, hOwner⟩ := UniValue.getStr_of_isStr hFields.1.1.2
  have hAmount := UniValue.integral_iff_of_isNum hFields.1.1.1
  have hDeadline := UniValue.integral_iff_of_isNum hFields.1.2
  simp only [List.mem_cons, List.not_mem_nil, or_false, forall_eq_or_imp, forall_eq, hAmount,
    hDeadline, ← metadataVersion_isSome_iff 1, hOwner, bind_eq_bind, bind_some]
  cases (metadata.findValue "n").getInt64 with
  | none => simp
  | some nAmount =>
    cases (metadata.findValue "d").getInt64 with
    | none => simp
    | some nDeadline => cases metadataVersion metadata 1 <;> simp

theorem parentAddressValid_iff {nAmount : Int} {hash : String}
    (hAmount : (metadata.findValue "n").getInt64 = some nAmount)
    (hHash : (metadata.findValue "h").getStr = some hash) :
    ParentAddressValid node view metadata ↔
      (0 ≤ nAmount → ∀ proposal, view.getProposal (uint256S hash) = some proposal →
        proposal.getLastState node.mapBlockIndex = .accepted →
        node.isValidAddress proposal.ownerAddress = true) := by
  unfold ParentAddressValid
  rw [hAmount, hHash]
  constructor
  · intro h hPos proposal hProposal hAccepted
    exact h nAmount hash proposal rfl hPos rfl hProposal hAccepted
  · rintro h _ _ proposal ⟨rfl⟩ hPos ⟨rfl⟩ hProposal hAccepted
    exact h hPos proposal hProposal hAccepted

/-- **Payment requests.** -/
theorem isValidPaymentRequest_isSome_iff :
    (isValidPaymentRequest node view tx nMaskVersion).isSome = true ↔
      WhenRead node tx.strDZeel hasRequestFields fun metadata =>
        (∀ key ∈ ["n", "v"], (metadata.findValue key).Integral) ∧
          ParentAddressValid node view metadata := by
  refine (read_isSome_iff node tx.strDZeel hasRequestFields _).trans (WhenRead.congr ?_)
  intro metadata hFields
  simp only [hasRequestFields, Bool.and_eq_true] at hFields
  obtain ⟨signature, hSignature⟩ := UniValue.getStr_of_isStr hFields.1.1.2
  obtain ⟨hash, hHash⟩ := UniValue.getStr_of_isStr hFields.1.2
  obtain ⟨strDZeel, hText⟩ := UniValue.getStr_of_isStr hFields.2
  have hIntegral := UniValue.integral_iff_of_isNum hFields.1.1.1
  simp only [List.mem_cons, List.not_mem_nil, or_false, forall_eq_or_imp, forall_eq, hIntegral,
    ← metadataVersion_isSome_iff 1, hSignature, hHash, hText, bind_eq_bind, bind_some]
  cases hAmount : (metadata.findValue "n").getInt64 with
  | none => simp
  | some nAmount =>
    rw [parentAddressValid_iff hAmount hHash]
    cases metadataVersion metadata 1 with
    | none => simp
    | some v =>
      simp only [bind_some, map_some, isSome_some, some.injEq, exists_eq', true_and]
      by_cases hNegative : nAmount < 0
      · rw [if_pos hNegative]
        exact iff_of_true rfl fun hPos => absurd hPos (not_le.mpr hNegative)
      · rw [if_neg hNegative, forall_prop_of_true (not_lt.mp hNegative)]
        cases view.getProposal (uint256S hash) with
        | none => exact iff_of_true rfl fun _ h => nomatch h
        | some proposal =>
          simp only [some.injEq, forall_eq', bne_iff_ne, ne_eq, ite_not]
          by_cases hAccepted : proposal.getLastState node.mapBlockIndex = .accepted
          · rw [if_pos hAccepted, forall_prop_of_true hAccepted]
            cases node.isValidAddress proposal.ownerAddress <;> simp
          · rw [if_neg hAccepted]
            exact iff_of_true rfl fun h => absurd h hAccepted

/-- **When the validators return.**  Each returns a boolean exactly when no number that it goes on
to read is anything but a 64-bit integer, and a payment request does not name an accepted proposal
without a valid address. -/
theorem validators_return_iff (node : Node) (view : CStateView) (tx : CTransaction)
    (nMaskVersion : Nat) :
    ((∃ b, isValidProposal node view tx nMaskVersion = some b) ↔
      WhenRead node tx.strDZeel hasProposalFields fun metadata =>
        ∀ key ∈ ["n", "d", "v"], (metadata.findValue key).Integral) ∧
    ((∃ b, isValidPaymentRequest node view tx nMaskVersion = some b) ↔
      WhenRead node tx.strDZeel hasRequestFields fun metadata =>
        (∀ key ∈ ["n", "v"], (metadata.findValue key).Integral) ∧
          ParentAddressValid node view metadata) := by
  rw [← isSome_iff_exists, ← isSome_iff_exists]
  exact ⟨isValidProposal_isSome_iff, isValidPaymentRequest_isSome_iff⟩

end Reading

/-- A proposal for half a coin more than a thousand. -/
def fractionalAmount : List (String × UniValue) :=
  [("n", .vnum "1000.5"), ("a", .vstr "owner"), ("d", .vnum "86400"), ("s", .vstr "a proposal")]

/-- A request for more than an amount can be. -/
def hugeWithdrawal : List (String × UniValue) :=
  [("n", .vnum "9223372036854775808"), ("s", .vstr "signature"), ("h", .vstr "05"),
    ("i", .vstr "a request")]

/-- **Exceptions escape.**  The metadata parses, and its numbers are JSON numbers. -/
theorem validators_throw :
    isValidProposal (DaoKind.reading fractionalAmount) .empty (DaoKind.contributing 50000000) 63 =
        none ∧
      isValidPaymentRequest (DaoKind.reading hugeWithdrawal) .empty (DaoKind.contributing 0) 31 =
        none := by
  decide +kernel

end Electrum
