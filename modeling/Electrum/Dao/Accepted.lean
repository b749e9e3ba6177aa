import Electrum.Dao.HashText

/-!
# What the validators accept

The validators (`IsValid...`) and the conversions (`TxTo...`) read the same JSON on their own, with
different accessors, defaults and widths.  This module says when the values that are stored are the
ones that were validated, and what the validators say about fees and versions.

Main results:
* `DaoKind.stored_eq_validated_iff` — when what is stored is what was validated
* `DaoKind.accepts_enforces_iff` — when an accepted transaction pays its fee and declares a version it
  may
-/

namespace Electrum

open Option Nat

/-- The four kinds of governance transactions. -/
inductive DaoKind
  | proposal
  | paymentRequest
  | consultation
  | answer
  deriving DecidableEq, Repr

/-- The values that the metadata of a transaction carries. -/
inductive DaoValues
  | proposal (nAmount : Int) (ownerAddress paymentAddress : String) (nDeadline nVersion : Int)
  | paymentRequest (nAmount : Int) (proposalhash : UInt256) (strDZeel : String) (nVersion : Int)
  | consultation (sQuestion : String) (nMin nMax nVersion : Int) (answers : List String)
  | answer (parent : UInt256) (sAnswer : String) (nVersion : Int)
  deriving DecidableEq, Repr

/-- The version that is declared where there is none. -/
def DaoKind.defaultVersion : DaoKind → Int
  | .proposal | .paymentRequest => 1
  | .consultation => CConsultation.BASE_VERSION
  | .answer => CConsultationAnswer.BASE_VERSION

namespace DaoKind

/-- The validator of the kind returns true. -/
def accepts (kind : DaoKind) (node : Node) (chainActive : Chain) (view : CStateView)
    (tx : CTransaction) (nMaskVersion : Nat) : Bool :=
  match kind with
  | .proposal => isValidProposal node view tx nMaskVersion == some true
  | .paymentRequest => isValidPaymentRequest node view tx nMaskVersion == some true
  | .consultation => isValidConsultation node chainActive view tx nMaskVersion
  | .answer => isValidConsultationAnswer node chainActive view tx

/-- The texts that are listed, each once. -/
def listedAnswers (fRange : Bool) (metadata : UniValue) : List String :=
  if fRange then [] else (answerTexts metadata).reverse.dedup.reverse

/-- The minimum, 0 where there is none. -/
def minimum (metadata : UniValue) : Option Int :=
  let m := metadata.findValue "m"
  if m.isNum then m.getInt64 else some 0

/-- The values as the validator of the kind reads them. -/
def validated (kind : DaoKind) (metadata : UniValue) : Option DaoValues := do
  let v ← metadataVersion metadata kind.defaultVersion
  match kind with
  | .proposal =>
    let nAmount ← (metadata.findValue "n").getInt64
    let ownerAddress ← (metadata.findValue "a").getStr
    let nDeadline ← (metadata.findValue "d").getInt64
    return .proposal nAmount ownerAddress
      (((metadata.findValue "p").getStr).getD ownerAddress) nDeadline (toI32 v)
  | .paymentRequest =>
    let nAmount ← (metadata.findValue "n").getInt64
    let hash ← (metadata.findValue "h").getStr
    let strDZeel ← (metadata.findValue "i").getStr
    return .paymentRequest nAmount (uint256S hash) strDZeel (toI32 v)
  | .consultation =>
    let nMin ← minimum metadata
    let nMax ← (metadata.findValue "n").getInt64
    let sQuestion ← (metadata.findValue "q").getStr
    return .consultation sQuestion nMin nMax (toI32 v)
      (listedAnswers (versionHas (toI32 v) CConsultation.ANSWER_IS_A_RANGE_VERSION) metadata)
  | .answer =>
    let sAnswer ← (metadata.findValue "a").getStr
    let hash ← (metadata.findValue "h").getStr
    return .answer (uint256S hash) sAnswer (toI32 v)

/-- The values that the conversion of the kind stores, if it does not fail. -/
def stored (kind : DaoKind) (node : Node) (pindexPrev : Chain) (tx : CTransaction)
    (blockhash : UInt256) (nFee : Int) : Option DaoValues :=
  match kind with
  | .proposal => (txToProposal node tx blockhash nFee).map fun p =>
      .proposal p.nAmount p.ownerAddress p.paymentAddress p.nDeadline p.nVersion
  | .paymentRequest => (txToPaymentRequest node tx blockhash).map fun r =>
      .paymentRequest r.nAmount r.proposalhash r.strDZeel r.nVersion
  | .consultation => (txToConsultation node pindexPrev tx blockhash).map fun c =>
      .consultation c.1.strDZeel c.1.nMin c.1.nMax c.1.nVersion (c.2.map (·.sAnswer))
  | .answer => (txToConsultationAnswer node tx blockhash).map fun a =>
      .answer a.parent a.sAnswer a.nVersion

/-- The metadata whose values the conversion reads as the validator does. -/
def Fits (kind : DaoKind) (metadata : UniValue) : Prop :=
  let version (P : Int → Prop) := ∀ v, metadataVersion metadata kind.defaultVersion = some v → P v
  match kind with
  | .proposal =>
    -- the version is read as an `int`, and says whether there is a payment address
    version (fun v => -2 ^ 31 ≤ v ∧ v < 2 ^ 31 ∧
      versionHas v CProposal.PAYMENT_ADDRESS_VERSION = (metadata.findValue "p").isStr) ∧
    -- the payment address is read from the owner's key
    (∀ paymentAddress, (metadata.findValue "p").getStr = some paymentAddress →
      (metadata.findValue "a").getStr = some paymentAddress) ∧
    -- the deadline is kept in 32 bits
    ∀ nDeadline, (metadata.findValue "d").getInt64 = some nDeadline → nDeadline < 2 ^ 32
  | .paymentRequest =>
    version (fun v => -2 ^ 31 ≤ v ∧ v < 2 ^ 31) ∧
    -- the text of the parent is read after a second `0x`
    ∀ hash, (metadata.findValue "h").getStr = some hash →
      startsPlain hash = true ∨ uint256S hash = 0
  | .consultation =>
    -- the version and the minimum are kept as `uint64_t`, and the minimum has no default
    version (fun v => 0 ≤ v ∧ v < 2 ^ 31) ∧
    ∃ nMin, (metadata.findValue "m").getInt64 = some nMin ∧ 0 ≤ nMin
  | .answer => True

end DaoKind

/-! ## Numbers -/

/-- The bounds are tested after the text is read. -/
theorem UniValue.parseInt_form (val : String) : ∃ (fDigits : Bool) (z : Int), ∀ lo hi,
    parseInt lo hi val =
      if fDigits && decide (lo ≤ z) && decide (z ≤ hi) then some z else none := by
  exact ⟨_, _, fun _ _ => rfl⟩

variable {z v : Int} {u : UniValue}

/-- The same text within other bounds. -/
theorem UniValue.parseInt_narrow {lo hi : Int} {val : String}
    (h : parseInt lo hi val = some z) : (lo ≤ z ∧ z ≤ hi) ∧
      ∀ lo' hi', parseInt lo' hi' val = if lo' ≤ z ∧ z ≤ hi' then some z else none := by
  obtain ⟨fDigits, z', hForm⟩ := parseInt_form val
  rw [hForm] at h
  split at h
  next hAll =>
    simp only [Bool.and_eq_true, decide_eq_true_eq] at hAll
    obtain rfl := some.inj h
    refine ⟨⟨hAll.1.2, hAll.2⟩, fun lo' hi' => ?_⟩
    rw [hForm]
    simp only [hAll.1.1, Bool.true_and, Bool.and_eq_true, decide_eq_true_eq]
  next => cases h

theorem UniValue.getInt64_bounds (h : u.getInt64 = some z) : -2 ^ 63 ≤ z ∧ z < 2 ^ 63 := by
  cases u with
  | vnum val =>
    have hBounds := (parseInt_narrow h).1
    omega
  | _ => cases h

theorem UniValue.getInt_of_getInt64 (h : u.getInt64 = some z) :
    u.getInt = if -2 ^ 31 ≤ z ∧ z < 2 ^ 31 then some z else none := by
  cases u with
  | vnum val =>
    rw [getInt, (parseInt_narrow h).2]
    exact if_congr (and_congr_right fun _ => by omega) rfl rfl
  | _ => cases h

theorem UniValue.isNum_of_getInt64 (h : u.getInt64 = some z) : u.isNum = true := by
  cases u with
  | vnum val => rfl
  | _ => cases h

theorem UniValue.isStr_eq (u : UniValue) : u.isStr = u.getStr.isSome := by
  cases u <;> rfl

theorem toI32_of_fits (hLow : -2 ^ 31 ≤ v) (hHigh : v < 2 ^ 31) : toI32 v = v := by
  unfold toI32
  omega

theorem toI32_range (v : Int) : -2 ^ 31 ≤ toI32 v ∧ toI32 v < 2 ^ 31 := by
  unfold toI32
  omega

theorem metadataVersion_bounds {metadata : UniValue} {default : Int}
    (hDefault : -2 ^ 63 ≤ default ∧ default < 2 ^ 63)
    (hVersion : metadataVersion metadata default = some v) : -2 ^ 63 ≤ v ∧ v < 2 ^ 63 := by
  simp only [metadataVersion] at hVersion
  split at hVersion
  · exact UniValue.getInt64_bounds hVersion
  · obtain rfl := some.inj hVersion
    exact hDefault

/-- The declared version, when it is read as an `int`. -/
theorem narrowVersion {metadata : UniValue} {default : Int}
    (hVersion : metadataVersion metadata default = some v) :
    ((metadata.findValue "v").isNum = true ∧
        (metadata.findValue "v").getInt = if -2 ^ 31 ≤ v ∧ v < 2 ^ 31 then some v else none) ∨
      ((metadata.findValue "v").isNum = false ∧ v = default) := by
  simp only [metadataVersion] at hVersion
  split at hVersion
  next hNum => exact Or.inl ⟨hNum, UniValue.getInt_of_getInt64 hVersion⟩
  next hNum => exact Or.inr ⟨Bool.eq_false_iff.mpr hNum, (some.inj hVersion).symm⟩

/-! ## What an accepted transaction declares -/

section Accepted

variable {node : Node} {chainActive : Chain} {view : CStateView} {tx : CTransaction}
  {nMaskVersion : Nat} {metadata : UniValue}

/-- What an accepted proposal has in its metadata. -/
theorem isValidProposal_true (hValid : isValidProposal node view tx nMaskVersion = some true)
    (hRead : node.readObject tx.strDZeel = some metadata) :
    ∃ nAmount ownerAddress nDeadline strDZeel v, (metadata.findValue "n").getInt64 = some nAmount ∧
      (metadata.findValue "a").getStr = some ownerAddress ∧
      (metadata.findValue "d").getInt64 = some nDeadline ∧
      (metadata.findValue "s").getStr = some strDZeel ∧
      metadataVersion metadata 1 = some v ∧ 0 < nAmount ∧ 0 < nDeadline ∧
      getConsensusParameter node.toEnv view .proposalMinFee ≤ toU64 tx.getValueOutCFund ∧
      withinMask (toI32 v) nMaskVersion = true := by
  simp only [isValidProposal, hRead] at hValid
  split at hValid
  case isTrue => cases hValid
  split at hValid
  case isTrue => cases hValid
  next hTypes =>
    simp only [Bool.not_eq_true', Bool.not_eq_false, Bool.and_eq_true] at hTypes
    obtain ⟨strDZeel, hText⟩ := isSome_iff_exists.mp
      ((UniValue.isStr_eq _).symm.trans hTypes.2)
    simp only [bind_eq_bind, bind_eq_some_iff, pure_def, some.injEq,
      Bool.and_eq_true, decide_eq_true_eq] at hValid
    obtain ⟨nAmount, hAmount, ownerAddress, hOwner, nDeadline, hDeadline, v, hVersion,
      ⟨⟨⟨⟨⟨⟨⟨-, hFee⟩, -⟩, -⟩, -⟩, hPos⟩, hLater⟩, hMask⟩⟩ := hValid
    exact ⟨nAmount, ownerAddress, nDeadline, strDZeel, v, hAmount, hOwner, hDeadline, hText,
      hVersion, hPos, hLater, hFee, hMask⟩

/-- What an accepted payment request has in its metadata. -/
theorem isValidPaymentRequest_true
    (hValid : isValidPaymentRequest node view tx nMaskVersion = some true)
    (hRead : node.readObject tx.strDZeel = some metadata) :
    ∃ nAmount hash strDZeel v, (metadata.findValue "n").getInt64 = some nAmount ∧
      (metadata.findValue "h").getStr = some hash ∧
      (metadata.findValue "i").getStr = some strDZeel ∧
      metadataVersion metadata 1 = some v ∧ 0 ≤ nAmount ∧
      (getConsensusParameter node.toEnv view .paymentRequestMinFee ≤ toU64 tx.getValueOutCFund →
        withinMask (toI32 v) nMaskVersion = true) := by
  simp only [isValidPaymentRequest, hRead] at hValid
  split at hValid
  case isTrue => cases hValid
  split at hValid
  case isTrue => cases hValid
  simp only [bind_eq_bind, bind_eq_some_iff, map_eq_some_iff] at hValid
  obtain ⟨nAmount, hAmount, signature, -, hash, hHash, strDZeel, hText, -, ⟨v, hVersion, rfl⟩,
    hRest⟩ := hValid
  split at hRest
  case isTrue => cases hRest
  next hNegative =>
    split at hRest
    case h_1 => cases hRest
    next proposal hParent =>
      split at hRest
      case isTrue => cases hRest
      split at hRest
      case isTrue => cases hRest
      simp only [pure_def, some.injEq, Bool.and_eq_true, Bool.not_eq_true',
        Bool.and_eq_false_iff, decide_eq_false_iff_not] at hRest
      refine ⟨nAmount, hash, strDZeel, v, hAmount, hHash, hText, hVersion, not_lt.mp hNegative, ?_⟩
      intro hPaid
      rcases hRest.2 with hUnpaid | hMask
      · exact absurd hPaid hUnpaid
      · simpa using hMask

/-- What an accepted consultation has in its metadata. -/
theorem isValidConsultation_true
    (hValid : isValidConsultation node chainActive view tx nMaskVersion = true)
    (hRead : node.readObject tx.strDZeel = some metadata) :
    ∃ nMin nMax sQuestion v, DaoKind.minimum metadata = some nMin ∧
      (metadata.findValue "n").getInt64 = some nMax ∧
      (metadata.findValue "q").getStr = some sQuestion ∧
      metadataVersion metadata CConsultation.BASE_VERSION = some v ∧ 0 < nMax ∧
      (versionHas (toI32 v) CConsultation.ANSWER_IS_A_RANGE_VERSION = true →
        0 ≤ nMin ∧ nMin < nMax) ∧
      consultationMinFee node.toEnv view (metadata.findValue "a").elements.length ≤
        tx.getValueOutCFund ∧
      withinMask (toI32 v) nMaskVersion = true := by
  simp only [isValidConsultation, hRead] at hValid
  split at hValid
  case isTrue => cases hValid
  split at hValid
  next nMin nMax sQuestion v hMin hMax hQuestion hVersion =>
    simp only [Bool.and_eq_true, Bool.or_eq_true, decide_eq_true_eq] at hValid
    obtain ⟨⟨⟨⟨-, hFee⟩, hRange⟩, -⟩, hMask⟩ := hValid
    refine ⟨nMin, nMax, sQuestion, v, hMin, hMax, hQuestion, hVersion, ?_, ?_, hFee, hMask⟩
    · rcases hRange with hRange | hNumber
      · omega
      · exact hNumber.1.2
    · intro hVersionRange
      rcases hRange with hRange | hNumber
      · exact ⟨hRange.1.1.2, hRange.2⟩
      · rw [hVersionRange] at hNumber
        cases hNumber.1.1
  next => cases hValid

theorem isValidConsultationAnswer_true
    (hValid : isValidConsultationAnswer node chainActive view tx = true)
    (hRead : node.readObject tx.strDZeel = some metadata) :
    ∃ sAnswer hash v, (metadata.findValue "a").getStr = some sAnswer ∧
      (metadata.findValue "h").getStr = some hash ∧
      metadataVersion metadata CConsultationAnswer.BASE_VERSION = some v ∧
      getConsensusParameter node.toEnv view .consultationAnswerMinFee ≤
        toU64 tx.getValueOutCFund := by
  simp only [isValidConsultationAnswer, hRead] at hValid
  split at hValid
  case isTrue => cases hValid
  split at hValid
  next sAnswer hash v hText hHash hVersion =>
    split at hValid
    case h_1 => cases hValid
    next consultation hParent =>
      simp only [Bool.and_eq_true, decide_eq_true_eq] at hValid
      exact ⟨sAnswer, hash, v, hText, hHash, hVersion, hValid.2⟩
  next => cases hValid

end Accepted

/-! ## Stored and validated -/

namespace DaoKind

variable {node : Node} {chainActive pindexPrev : Chain} {view : CStateView} {tx : CTransaction}
  {nMaskVersion : Nat} {metadata : UniValue} {blockhash : UInt256} {nFee : Int}

/-- A version that fits is stored with the bit of the payment address set or cleared, the owner's
address twice, and the low bits of the deadline. -/
theorem proposal_values_iff {v d n : Int} {p : UniValue} {a : String}
    (hInt : -2 ^ 31 ≤ v ∧ v < 2 ^ 31) (hLater : 0 < d) (hBound : d < 2 ^ 63) :
    some (DaoValues.proposal n a a ((toU64 d % 2 ^ 32 : Nat) : Int) (if p.isStr then
          if versionHas v CProposal.PAYMENT_ADDRESS_VERSION then v
          else v + CProposal.PAYMENT_ADDRESS_VERSION
        else if versionHas v CProposal.PAYMENT_ADDRESS_VERSION then
          v - CProposal.PAYMENT_ADDRESS_VERSION
        else v)) = some (.proposal n a (p.getStr.getD a) d (toI32 v)) ↔
      (-2 ^ 31 ≤ v ∧ v < 2 ^ 31 ∧ versionHas v CProposal.PAYMENT_ADDRESS_VERSION = p.isStr) ∧
        (∀ paymentAddress, p.getStr = some paymentAddress → a = paymentAddress) ∧ d < 2 ^ 32 := by
  have hCut : ((toU64 d % 2 ^ 32 : Nat) : Int) = d ↔ d < 2 ^ 32 := by
    unfold toU64
    omega
  have hAddress : a = p.getStr.getD a ↔ ∀ paymentAddress, p.getStr = some paymentAddress →
      a = paymentAddress := by
    cases p.getStr <;> simp
  simp only [some.injEq, DaoValues.proposal.injEq, true_and, toI32_of_fits hInt.1 hInt.2, hCut,
    ← hAddress, hInt]
  cases hFlag : versionHas v CProposal.PAYMENT_ADDRESS_VERSION <;> cases hHas : p.isStr <;>
    simp [CProposal.PAYMENT_ADDRESS_VERSION, and_comm]

/-- **Proposals.** -/
theorem stored_proposal_iff (hValid : isValidProposal node view tx nMaskVersion = some true)
    (hRead : node.readObject tx.strDZeel = some metadata) :
    (∃ values, validated .proposal metadata = some values ∧
      stored .proposal node pindexPrev tx blockhash nFee = some values) ↔
      Fits .proposal metadata := by
  obtain ⟨nAmount, ownerAddress, nDeadline, strDZeel, v, hAmount, hOwner, hDeadline, hText, hVersion,
    hPos, hLater, -, -⟩ := isValidProposal_true hValid hRead
  have hBounds := UniValue.getInt64_bounds hDeadline
  have hValidated : validated .proposal metadata = some (.proposal nAmount ownerAddress
      (((metadata.findValue "p").getStr).getD ownerAddress) nDeadline (toI32 v)) := by
    simp only [validated, defaultVersion, hVersion, hAmount, hOwner, hDeadline]
    rfl
  simp only [hValidated, some.injEq, exists_eq_left', Fits, defaultVersion, hVersion,
    forall_eq', hDeadline, hOwner, stored, txToProposal, hRead, hAmount, hText, bind_eq_bind,
    bind_some, if_neg (not_lt.mpr hPos.le)]
  have hStored (hInt : -2 ^ 31 ≤ v ∧ v < 2 ^ 31) := proposal_values_iff (v := v) (d := nDeadline)
    (p := metadata.findValue "p") (a := ownerAddress) (n := nAmount) hInt hLater hBounds.2
  rcases narrowVersion hVersion with ⟨hNum, hInt⟩ | ⟨hNum, rfl⟩
  · rw [if_pos hNum, hInt]
    by_cases hFits : -2 ^ 31 ≤ v ∧ v < 2 ^ 31
    · rw [if_pos hFits]
      exact hStored hFits
    · rw [if_neg hFits]
      simp only [bind_none, map_none, reduceCtorEq, false_iff]
      exact fun h => hFits ⟨h.1.1, h.1.2.1⟩
  · rw [if_neg (by simp [hNum])]
    exact hStored (by decide)

/-- **Payment requests.** -/
theorem stored_paymentRequest_iff
    (hValid : isValidPaymentRequest node view tx nMaskVersion = some true)
    (hRead : node.readObject tx.strDZeel = some metadata) :
    (∃ values, validated .paymentRequest metadata = some values ∧
      stored .paymentRequest node pindexPrev tx blockhash nFee = some values) ↔
      Fits .paymentRequest metadata := by
  obtain ⟨nAmount, hash, strDZeel, v, hAmount, hHash, hText, hVersion, hPos, -⟩ :=
    isValidPaymentRequest_true hValid hRead
  have hValidated : validated .paymentRequest metadata =
      some (.paymentRequest nAmount (uint256S hash) strDZeel (toI32 v)) := by
    simp only [validated, defaultVersion, hVersion, hAmount, hHash, hText]
    rfl
  simp only [hValidated, some.injEq, exists_eq_left', Fits, defaultVersion, hVersion,
    forall_eq', hHash, stored, txToPaymentRequest, hRead, hAmount, hText, bind_eq_bind,
    bind_some, if_neg (not_lt.mpr hPos)]
  have hStored (hInt : -2 ^ 31 ≤ v ∧ v < 2 ^ 31) :
      some (DaoValues.paymentRequest nAmount (uint256S ("0x" ++ hash)) strDZeel v) =
          some (.paymentRequest nAmount (uint256S hash) strDZeel (toI32 v)) ↔
        (-2 ^ 31 ≤ v ∧ v < 2 ^ 31) ∧ (startsPlain hash = true ∨ uint256S hash = 0) := by
    simp only [some.injEq, DaoValues.paymentRequest.injEq, true_and,
      toI32_of_fits hInt.1 hInt.2, and_true, hInt, uint256S_prefixed_iff]
  rcases narrowVersion hVersion with ⟨hNum, hInt⟩ | ⟨hNum, rfl⟩
  · rw [if_pos hNum, hInt]
    by_cases hFits : -2 ^ 31 ≤ v ∧ v < 2 ^ 31
    · rw [if_pos hFits]
      exact hStored hFits
    · rw [if_neg hFits]
      simp only [bind_none, map_none, reduceCtorEq, false_iff]
      exact fun h => hFits h.1
  · rw [if_neg (by simp [hNum])]
    exact hStored (by decide)

/-- **Consultations.** -/
theorem stored_consultation_iff
    (hValid : isValidConsultation node chainActive view tx nMaskVersion = true)
    (hRead : node.readObject tx.strDZeel = some metadata) :
    (∃ values, validated .consultation metadata = some values ∧
      stored .consultation node pindexPrev tx blockhash nFee = some values) ↔
      Fits .consultation metadata := by
  obtain ⟨nMin, nMax, sQuestion, v, hMin, hMax, hQuestion, hVersion, hPos, -⟩ :=
    isValidConsultation_true hValid hRead
  have hValidated : validated .consultation metadata = some (.consultation sQuestion nMin nMax
      (toI32 v) (listedAnswers (versionHas (toI32 v) CConsultation.ANSWER_IS_A_RANGE_VERSION)
        metadata)) := by
    simp only [validated, defaultVersion, hVersion, hMin, hMax, hQuestion]
    rfl
  have hMaxBound := (UniValue.getInt64_bounds hMax).2
  have hMaxSame : ((toU64 nMax : Nat) : Int) = nMax := by
    unfold toU64
    omega
  have hVersionBounds := metadataVersion_bounds (by decide) hVersion
  simp only [hValidated, some.injEq, exists_eq_left', Fits, defaultVersion, hVersion,
    forall_eq', stored, txToConsultation, hRead, hMax, hQuestion, bind_eq_bind,
    bind_some]
  cases hHas : (metadata.findValue "m").getInt64 with
  | none => simp
  | some m =>
    have hSame : m = nMin := by
      simp only [minimum, UniValue.isNum_of_getInt64 hHas, if_true, hHas, some.injEq] at hMin
      exact hMin
    subst hSame
    have hMinBounds := UniValue.getInt64_bounds hHas
    simp only [bind_some, pure_def, map_some, some.injEq,
      DaoValues.consultation.injEq, true_and, hMaxSame, exists_eq_left']
    constructor
    · rintro ⟨hMinSame, hVersionSame, -⟩
      have hRange := toI32_range v
      unfold toU64 at hMinSame hVersionSame
      omega
    · rintro ⟨⟨hLow, hHigh⟩, hMinPos⟩
      have hVersionSame : ((toU64 v : Nat) : Int) = v := by
        unfold toU64
        omega
      have hMinSame : ((toU64 m : Nat) : Int) = m := by
        unfold toU64
        omega
      refine ⟨hMinSame, ?_, ?_⟩
      · rw [hVersionSame, toI32_of_fits (by omega) hHigh]
      · rw [CConsultation.isRange, hVersionSame, toI32_of_fits (by omega) hHigh, listedAnswers]
        split
        · rfl
        · simp [Function.comp_def]

theorem stored_answer (hValid : isValidConsultationAnswer node chainActive view tx = true)
    (hRead : node.readObject tx.strDZeel = some metadata) :
    ∃ values, validated .answer metadata = some values ∧
      stored .answer node pindexPrev tx blockhash nFee = some values := by
  obtain ⟨sAnswer, hash, v, hText, hHash, hVersion, -⟩ := isValidConsultationAnswer_true hValid hRead
  refine ⟨.answer (uint256S hash) sAnswer (toI32 v), ?_, ?_⟩
  · simp only [validated, defaultVersion, hVersion, hText, hHash]
    rfl
  · simp only [stored, txToConsultationAnswer, hRead, bind_eq_bind, bind_some, hVersion,
      hText, hHash]
    rfl

/-- **When what is stored is what was validated.**  Of the metadata of an accepted transaction the
conversion stores the values that the validator read exactly when they fit what it reads on its own;
those of an answer always do. -/
theorem stored_eq_validated_iff (kind : DaoKind)
    (hAccepts : kind.accepts node chainActive view tx nMaskVersion = true)
    (hRead : node.readObject tx.strDZeel = some metadata) :
    (∃ values, kind.validated metadata = some values ∧
      kind.stored node pindexPrev tx blockhash nFee = some values) ↔ kind.Fits metadata := by
  cases kind with
  | proposal => exact stored_proposal_iff (beq_iff_eq.mp hAccepts) hRead
  | paymentRequest => exact stored_paymentRequest_iff (beq_iff_eq.mp hAccepts) hRead
  | consultation => exact stored_consultation_iff hAccepts hRead
  | answer => exact iff_of_true (stored_answer hAccepts hRead) trivial

/-- A node that reads the given metadata. -/
def reading (keys : List (String × UniValue)) : Node :=
  { Node.trusting (fun _ _ => true) ∅ [] with readJSON := fun _ => some (.vobj keys) }

/-- A transaction that contributes the given amount to the fund. -/
def contributing (nValue : Int) : CTransaction where
  hash := 1
  nVersion := CTransaction.PROPOSAL_VERSION
  nTime := 0
  vin := [⟨⟨100, 0⟩⟩]
  vout := [⟨nValue, [OP_RETURN, OP_CFUND]⟩]
  strDZeel := "metadata"

/-- A proposal that is paid to its owner. -/
def ownPayment : List (String × UniValue) :=
  [("n", .vnum "1000"), ("a", .vstr "owner"), ("d", .vnum "86400"), ("s", .vstr "a proposal"),
    ("v", .vnum "2")]

theorem stored_eq_validated_iff_ownPayment :
    ∃ values, DaoKind.proposal.validated (.vobj ownPayment) = some values ∧
      DaoKind.proposal.stored (reading ownPayment) [] (contributing 50000000) 0 50000000 =
        some values := by
  have hAccepts : DaoKind.proposal.accepts (reading ownPayment) [] .empty (contributing 50000000) 63 =
      true := by decide +kernel
  refine (stored_eq_validated_iff .proposal hAccepts rfl).mpr ⟨?_, ?_, ?_⟩
  · intro v hVersion
    have hTwo : metadataVersion (.vobj ownPayment) 1 = some 2 := by decide +kernel
    obtain rfl := some.inj (hTwo.symm.trans hVersion)
    decide +kernel
  · intro paymentAddress hPayment
    cases hPayment
  · intro nDeadline hDeadline
    have hDay : ((UniValue.vobj ownPayment).findValue "d").getInt64 = some 86400 := by decide +kernel
    obtain rfl := some.inj (hDay.symm.trans hDeadline)
    decide

/-- A proposal that asks to be paid to somebody else. -/
def otherPayment : List (String × UniValue) := ("p", .vstr "payee") :: ownPayment

/-- A consultation that leaves the minimum out. -/
def withoutMinimum : List (String × UniValue) :=
  [("n", .vnum "1"), ("q", .vstr "a question"), ("v", .vnum "5")]

/-- **Not what was validated.**  The payment address of the proposal is validated, but the owner's
is stored; the consultation is valid, but its conversion throws. -/
theorem stored_ne_validated :
    (DaoKind.proposal.accepts (reading otherPayment) [] .empty (contributing 50000000) 63 = true ∧
      DaoKind.proposal.validated (.vobj otherPayment) =
        some (.proposal 1000 "owner" "payee" 86400 2) ∧
      DaoKind.proposal.stored (reading otherPayment) [] (contributing 50000000) 0 50000000 =
        some (.proposal 1000 "owner" "owner" 86400 18)) ∧
    (DaoKind.consultation.accepts (reading withoutMinimum) [] .empty (contributing 100000000) 31 = true ∧
      DaoKind.consultation.validated (.vobj withoutMinimum) =
        some (.consultation "a question" 0 1 5 []) ∧
      DaoKind.consultation.stored (reading withoutMinimum) [] (contributing 100000000) 0 0 = none) := by
  decide +kernel

end DaoKind

/-! ## Fees and versions -/

namespace DaoKind

/-- The fee that a transaction of the kind has to pay, without a bound. -/
def requiredFee (kind : DaoKind) (env : Env) (view : CStateView) (metadata : UniValue) : Nat :=
  match kind with
  | .proposal => getConsensusParameter env view .proposalMinFee
  | .paymentRequest => getConsensusParameter env view .paymentRequestMinFee
  | .consultation => getConsensusParameter env view .consultationMinFee +
      getConsensusParameter env view .consultationAnswerMinFee *
        (metadata.findValue "a").elements.length
  | .answer => getConsensusParameter env view .consultationAnswerMinFee

/-- The fee is paid, and the declared version has no bit outside the mask. -/
def Enforced (kind : DaoKind) (env : Env) (view : CStateView) (tx : CTransaction)
    (nMaskVersion : Nat) (metadata : UniValue) : Prop :=
  (kind.requiredFee env view metadata : Int) ≤ tx.getValueOutCFund ∧
    ∀ v, metadataVersion metadata kind.defaultVersion = some v → withinMask v nMaskVersion = true

/-- The bits of a version beyond those of an `int` are in the mask. -/
def highBitsWithin (v : Int) (nMaskVersion : Nat) : Bool :=
  (toU64 v / 2 ^ 32) &&& (nMaskVersion / 2 ^ 32) == toU64 v / 2 ^ 32

/-- What a validator leaves open. -/
def LeftOpen (kind : DaoKind) (env : Env) (view : CStateView) (tx : CTransaction)
    (nMaskVersion : Nat) (metadata : UniValue) : Prop :=
  let version (P : Int → Bool) :=
    ∀ v, metadataVersion metadata kind.defaultVersion = some v → P v = true
  match kind with
  -- contributions are compared as `uint64_t`, and the version is cut to an `int`
  | .proposal => 0 ≤ tx.getValueOutCFund ∧ version (highBitsWithin · nMaskVersion)
  -- the fee is not required
  | .paymentRequest => (kind.requiredFee env view metadata : Int) ≤ tx.getValueOutCFund ∧
      version (highBitsWithin · nMaskVersion)
  -- the fee is computed modulo 2^64
  | .consultation => kind.requiredFee env view metadata < 2 ^ 63 ∧
      version (highBitsWithin · nMaskVersion)
  -- the version is not looked at
  | .answer => 0 ≤ tx.getValueOutCFund ∧ version (withinMask · nMaskVersion)

end DaoKind

theorem withinMask_iff (v : Int) (nMaskVersion : Nat) : withinMask v nMaskVersion = true ↔
    ∀ i, (toU64 v).testBit i = true → nMaskVersion.testBit i = true := by
  rw [withinMask, beq_iff_eq]
  constructor
  · intro hWithin i hBit
    rw [← hWithin, testBit_and, Bool.and_eq_true] at hBit
    exact hBit.2
  · intro hBits
    refine eq_of_testBit_eq fun i => ?_
    rw [testBit_and]
    cases hBit : (toU64 v).testBit i with
    | false => rfl
    | true => rw [hBits i hBit]; rfl

/-- Of a version whose `int` is within the mask the other bits are left to check. -/
theorem withinMask_of_toI32 {nMaskVersion : Nat} (hLow : withinMask (toI32 v) nMaskVersion = true) :
    withinMask v nMaskVersion = true ↔ DaoKind.highBitsWithin v nMaskVersion = true := by
  have hSame : toU64 (toI32 v) % 2 ^ 32 = toU64 v % 2 ^ 32 := by
    unfold toU64 toI32
    omega
  have hBit : ∀ i < 32, (toU64 (toI32 v)).testBit i = (toU64 v).testBit i := by
    intro i hi
    have hMod : (toU64 (toI32 v) % 2 ^ 32).testBit i = (toU64 v % 2 ^ 32).testBit i := by rw [hSame]
    rw [testBit_mod_two_pow, testBit_mod_two_pow] at hMod
    simpa only [hi, decide_true, Bool.true_and] using hMod
  rw [withinMask_iff, DaoKind.highBitsWithin, beq_iff_eq]
  constructor
  · intro hBits
    refine eq_of_testBit_eq fun i => ?_
    rw [testBit_and, testBit_div_two_pow, testBit_div_two_pow]
    cases hHigh : (toU64 v).testBit (i + 32) with
    | false => rfl
    | true => rw [hBits _ hHigh]; rfl
  · intro hHigh i hSet
    rcases lt_or_ge i 32 with hi | hi
    · rw [← hBit i hi] at hSet
      exact (withinMask_iff _ _).mp hLow i hSet
    · obtain ⟨j, rfl⟩ : ∃ j, i = j + 32 := ⟨i - 32, by omega⟩
      rw [← testBit_div_two_pow, ← hHigh, testBit_and, Bool.and_eq_true] at hSet
      rw [← testBit_div_two_pow]
      exact hSet.2

namespace DaoKind

variable {node : Node} {chainActive : Chain} {view : CStateView} {tx : CTransaction}
  {nMaskVersion : Nat} {metadata : UniValue}

/-- **When an accepted transaction pays its fee and declares a version it may.** -/
theorem accepts_enforces_iff (kind : DaoKind)
    (hAmount : -2 ^ 63 ≤ tx.getValueOutCFund ∧ tx.getValueOutCFund < 2 ^ 63)
    (hAccepts : kind.accepts node chainActive view tx nMaskVersion = true)
    (hRead : node.readObject tx.strDZeel = some metadata) :
    kind.Enforced node.toEnv view tx nMaskVersion metadata ↔
      kind.LeftOpen node.toEnv view tx nMaskVersion metadata := by
  have hUnsigned : 0 ≤ tx.getValueOutCFund → ((toU64 tx.getValueOutCFund : Nat) : Int) =
      tx.getValueOutCFund := by
    unfold toU64
    omega
  cases kind with
  | proposal =>
    obtain ⟨-, -, -, -, v, -, -, -, -, hVersion, -, -, hFee, hMask⟩ :=
      isValidProposal_true (beq_iff_eq.mp hAccepts) hRead
    simp only [Enforced, LeftOpen, defaultVersion, requiredFee, hVersion, some.injEq,
      forall_eq', withinMask_of_toI32 hMask]
    refine and_congr_left fun _ => ⟨fun h => le_trans (Int.natCast_nonneg _) h, fun hPos => ?_⟩
    rw [← hUnsigned hPos]
    exact_mod_cast hFee
  | paymentRequest =>
    obtain ⟨-, -, -, v, -, -, -, hVersion, -, hMask⟩ :=
      isValidPaymentRequest_true (beq_iff_eq.mp hAccepts) hRead
    simp only [Enforced, LeftOpen, defaultVersion, requiredFee, hVersion, some.injEq,
      forall_eq']
    refine and_congr_right fun hFee => withinMask_of_toI32 (hMask ?_)
    have hPos := le_trans (Int.natCast_nonneg _) hFee
    rw [← hUnsigned hPos] at hFee
    exact_mod_cast hFee
  | consultation =>
    obtain ⟨-, -, -, v, -, -, -, hVersion, -, -, hFee, hMask⟩ :=
      isValidConsultation_true hAccepts hRead
    simp only [Enforced, LeftOpen, defaultVersion, hVersion, some.injEq,
      forall_eq', withinMask_of_toI32 hMask]
    refine and_congr_left fun _ => ?_
    have hWrapped : toI64 (DaoKind.consultation.requiredFee node.toEnv view metadata) ≤
        tx.getValueOutCFund := hFee
    unfold toI64 at hWrapped
    constructor
    · omega
    · intro hSmall
      have hMod : DaoKind.consultation.requiredFee node.toEnv view metadata % 2 ^ 64 =
          DaoKind.consultation.requiredFee node.toEnv view metadata :=
        Nat.mod_eq_of_lt (by omega)
      rw [hMod, if_pos hSmall] at hWrapped
      exact hWrapped
  | answer =>
    obtain ⟨-, -, v, -, -, hVersion, hFee⟩ := isValidConsultationAnswer_true hAccepts hRead
    refine and_congr_left fun _ => ⟨fun h => le_trans (Int.natCast_nonneg _) h, fun hPos => ?_⟩
    rw [← hUnsigned hPos]
    exact_mod_cast hFee

theorem accepts_enforces_iff_ownPayment :
    DaoKind.proposal.Enforced (reading ownPayment).toEnv .empty (contributing 50000000) 63
      (.vobj ownPayment) := by
  have hAccepts : DaoKind.proposal.accepts (reading ownPayment) [] .empty (contributing 50000000) 63 =
      true := by decide +kernel
  refine (accepts_enforces_iff .proposal (by decide +kernel) hAccepts rfl).mpr
    ⟨by decide +kernel, ?_⟩
  intro v hVersion
  have hTwo : metadataVersion (.vobj ownPayment) 1 = some 2 := by decide +kernel
  obtain rfl := some.inj (hTwo.symm.trans hVersion)
  decide +kernel

/-- A view in which parameters were changed. -/
def withParameters (values : List (ConsensusParamsPos × Nat)) : CStateView :=
  { CStateView.empty with
    consensus := values.foldl (fun m it => m.insert it.1.idx ⟨(∅ : Map Nat Nat).insert 1 it.2⟩) ∅ }

/-- A consultation with four answers. -/
def fourAnswers : List (String × UniValue) :=
  [("m", .vnum "0"), ("n", .vnum "1"), ("q", .vstr "a question"), ("v", .vnum "5"),
    ("a", .varr [.vstr "a", .vstr "b", .vstr "c", .vstr "d"])]

/-- A view in which an answer costs 2^62. -/
def dearAnswers : CStateView := withParameters [(.consultationAnswerMinFee, 2 ^ 62)]

/-- An answer of a version that there is not. -/
def laterVersion : List (String × UniValue) :=
  [("a", .vstr "an answer"), ("h", .vstr "05"), ("v", .vnum "4")]

/-- A view with a consultation that takes answers. -/
def openConsultation : CStateView :=
  { CStateView.empty with
    consultations := (∅ : Map UInt256 CConsultation).insert (uint256S "05")
      ⟨∅, uint256S "05", 7, 5, 0, "a question", 0, 0, 1, ∅, [], 0⟩ }

/-- A request to withdraw from a proposal. -/
def withdrawal : List (String × UniValue) :=
  [("n", .vnum "10"), ("s", .vstr "signature"), ("h", .vstr "05"), ("i", .vstr "a request")]

/-- A node that knows the block in which the proposal below was accepted. -/
def knowing (keys : List (String × UniValue)) : Node :=
  { reading keys with mapBlockIndex := (∅ : BlockMap).insert 7 ⟨7, 1, 0, 0⟩ }

/-- A view with an accepted proposal, in which a payment request costs 1000. -/
def acceptedProposal : CStateView :=
  { withParameters [(.paymentRequestMinFee, 1000)] with
    proposals := (∅ : Map UInt256 CProposal).insert (uint256S "05")
      ⟨100, 50000000, "owner", "owner", 86400, (∅ : StateMap).insert 7 .accepted, 0, 0, 0, 0,
        "a proposal", uint256S "05", 7, 2, 0⟩ }

/-- **Fees and versions are not enforced.**  A payment request that pays nothing is accepted, the
fee of a consultation wraps around, and the version of an answer is not looked at. -/
theorem accepts_unpaid :
    (DaoKind.paymentRequest.accepts (knowing withdrawal) [] acceptedProposal (contributing 0) 31 =
        true ∧
      DaoKind.paymentRequest.requiredFee (knowing withdrawal).toEnv acceptedProposal
        (.vobj withdrawal) = 1000) ∧
    (DaoKind.consultation.accepts (reading fourAnswers) [] dearAnswers (contributing 100000000) 31 =
        true ∧
      DaoKind.consultation.requiredFee (reading fourAnswers).toEnv dearAnswers
        (.vobj fourAnswers) = 100000000 + 4 * 2 ^ 62) ∧
    (DaoKind.answer.accepts (reading laterVersion) [] openConsultation (contributing 50000000) 3 =
        true ∧
      metadataVersion (.vobj laterVersion) CConsultationAnswer.BASE_VERSION = some 4 ∧
      withinMask 4 3 = false) := by
  decide +kernel

end DaoKind

end Electrum
