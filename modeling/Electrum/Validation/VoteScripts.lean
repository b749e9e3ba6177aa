import Electrum.Dao.Accepted
import Electrum.Dao.HashText
import Electrum.Lib.Codec
import Electrum.Lib.Fold
import Electrum.Validation.ConnectBlock

/-!
# Vote scripts

A vote is an `OP_RETURN` output.  `SetScriptFor...` write it, `ConnectBlock` extracts it again and
files it under the key that `GetStakerScript` cuts out of the voter's own script.

Main results:
* `consultationVote_reads_iff` — when the vote that was written is the one that is extracted
* `extraction_total_iff` — the scripts whose vote can be extracted
* `stakerScript_injective_iff` — when two voters have different keys
-/

namespace Electrum

open List Option Bool CScript

namespace CScript

/-! ## Writing votes -/

/-- `CScriptNum::serialize`: the magnitude, lowest byte first; the sign is the top bit of the last
byte, and takes one more byte where that bit is in use. -/
def serializeScriptNum (value : Int) : List UInt8 :=
  let result := shortestLE value.natAbs
  match result.getLast? with
  | none => []
  | some back =>
    if 0x80 ≤ back.toNat then result ++ [if value < 0 then 0x80 else 0]
    else if value < 0 then result.dropLast ++ [back ||| 0x80]
    else result

/-- `operator<<` of bytes that are fewer than `OP_PUSHDATA1`. -/
def pushBytes (s : CScript) (bs : List UInt8) : CScript := s ++ UInt8.ofNat bs.length :: bs

/-- The opcodes of a vote, and the hash that is voted on. -/
def voteScript (opcodes : List UInt8) (hash : UInt256) : CScript :=
  opcodes ++ 0x20 :: hash.toBytes.map UInt8.ofNat

def setScriptForConsultationVote (hash : UInt256) (vote : Int) : CScript :=
  let script := voteScript
    [OP_RETURN, OP_CONSULTATION, if vote = VOTE_ABSTAIN then OP_ABSTAIN else OP_ANSWER] hash
  if -1 < vote then script.pushBytes (serializeScriptNum vote) else script

def setScriptForConsultationVoteRemove (hash : UInt256) : CScript :=
  voteScript [OP_RETURN, OP_CONSULTATION, OP_REMOVE] hash

/-! ## Script numbers -/

theorem scriptNumValue_eq (vch : List UInt8) : scriptNumValue vch = match vch.getLast? with
      | none => 0
      | some b =>
        if 0x80 ≤ b.toNat then -((natOfLE vch - 0x80 * 256 ^ (vch.length - 1) : Nat) : Int)
        else natOfLE vch := by
  have hFold : vch.foldr (fun b n => b.toNat + 256 * n) 0 = natOfLE vch := by
    induction vch with
    | nil => rfl
    | cons b rest ih => rw [foldr_cons, ih, natOfLE]
  unfold scriptNumValue
  cases vch.getLast? <;> simp only [hFold]

/-- The value of bytes of which the last carries the sign. -/
theorem scriptNumValue_snoc (init : List UInt8) (back : UInt8) : scriptNumValue (init ++ [back]) =
      if 0x80 ≤ back.toNat then
        -((natOfLE init + 256 ^ init.length * (back.toNat - 0x80) : Nat) : Int)
      else (natOfLE init + 256 ^ init.length * back.toNat : Nat) := by
  have hValue : natOfLE (init ++ [back]) = natOfLE init + 256 ^ init.length * back.toNat := by
    rw [natOfLE_append]
    simp [natOfLE]
  rw [scriptNumValue_eq, getLast?_concat, hValue, length_append, length_singleton,
    Nat.add_sub_cancel]
  dsimp only
  split
  next hSign =>
    have hSplit : 256 ^ init.length * back.toNat =
        256 ^ init.length * (back.toNat - 0x80) + 0x80 * 256 ^ init.length := by
      rw [Nat.mul_comm 0x80, ← Nat.mul_add, Nat.sub_add_cancel hSign]
    rw [hSplit, ← Nat.add_assoc, Nat.add_sub_cancel]
  next => rfl

theorem toNat_or_sign {back : UInt8} (h : back.toNat < 0x80) :
    (back ||| 0x80).toNat = back.toNat + 0x80 := by
  have hAll : ∀ n < 128, n ||| 128 = n + 128 := by decide
  exact hAll _ h

/-- The forms of a serialized number: `result` are the bytes of its magnitude. -/
theorem serializeScriptNum_cases (value : Int) : (value = 0 ∧ serializeScriptNum value = []) ∨
      ∃ init back, shortestLE value.natAbs = init ++ [back] ∧
        value.natAbs = natOfLE init + 256 ^ init.length * back.toNat ∧
        ((0x80 ≤ back.toNat ∧ serializeScriptNum value =
            (init ++ [back]) ++ [if value < 0 then 0x80 else 0]) ∨
          (back.toNat < 0x80 ∧ serializeScriptNum value =
            init ++ [if value < 0 then back ||| 0x80 else back])) := by
  have hValue := natOfLE_shortestLE value.natAbs
  unfold serializeScriptNum
  dsimp only
  rcases eq_nil_or_concat (shortestLE value.natAbs) with hNil | ⟨init, back, hSplit⟩
  · rw [hNil] at hValue ⊢
    exact .inl ⟨Int.natAbs_eq_zero.mp hValue.symm, rfl⟩
  · rw [concat_eq_append] at hSplit
    rw [hSplit, natOfLE_append] at hValue
    refine .inr ⟨init, back, hSplit, by simpa [natOfLE] using hValue.symm, ?_⟩
    rw [hSplit, getLast?_concat, dropLast_concat]
    dsimp only
    by_cases hSign : 0x80 ≤ back.toNat
    · exact .inl ⟨hSign, if_pos hSign⟩
    · refine .inr ⟨not_le.mp hSign, ?_⟩
      rw [if_neg hSign]
      split <;> rfl

/-- **A serialized number is read back**, whatever its size. -/
theorem scriptNumValue_serialize (value : Int) :
    scriptNumValue (serializeScriptNum value) = value := by
  rcases serializeScriptNum_cases value with ⟨rfl, hEmpty⟩ | ⟨init, back, -, hAbs, hForm⟩
  · rfl
  rcases hForm with ⟨-, hForm⟩ | ⟨hFree, hForm⟩
  · -- the sign has a byte of its own
    have hAll : natOfLE (init ++ [back]) = value.natAbs := by
      rw [natOfLE_append, hAbs]
      simp [natOfLE]
    rw [hForm, scriptNumValue_snoc]
    split
    next hNeg =>
      have hSign : (0x80 : UInt8).toNat - 0x80 = 0 := rfl
      rw [if_pos (by decide), hSign]
      omega
    next hPos =>
      have hZero : (0 : UInt8).toNat = 0 := rfl
      rw [hZero]
      omega
  · rw [hForm, scriptNumValue_snoc]
    split
    next hNeg =>
      rw [toNat_or_sign hFree, Nat.add_sub_cancel]
      omega
    next hPos =>
      omega

/-- How many bytes a number takes. -/
theorem length_serializeScriptNum_le_iff (k : Nat) (value : Int) :
    (serializeScriptNum value).length ≤ k + 1 ↔ value.natAbs < 0x80 * 256 ^ k := by
  rcases serializeScriptNum_cases value with ⟨rfl, hEmpty⟩ | ⟨init, back, hBytes, hAbs, hForm⟩
  · rw [hEmpty]
    simp
  have hInit := natOfLE_lt init
  have hSize := length_shortestLE_le_iff
  rcases hForm with ⟨hSign, hForm⟩ | ⟨hFree, hForm⟩
  · rw [hForm, length_append, length_append]
    simp only [length_singleton]
    constructor
    · intro hLe
      have hLt := (hSize k value.natAbs).mp (by rw [hBytes]; simpa using hLe)
      omega
    · by_contra hLong
      have hPow : 256 ^ k ≤ 256 ^ init.length := Nat.pow_le_pow_right (by decide) (by omega)
      have hTop : 256 ^ init.length * 0x80 ≤ 256 ^ init.length * back.toNat :=
        Nat.mul_le_mul_left _ hSign
      omega
  · rw [hForm, length_append, length_singleton]
    constructor
    · intro hLe
      have hPow : 256 ^ init.length ≤ 256 ^ k := Nat.pow_le_pow_right (by decide) (by omega)
      have hTop : 256 ^ init.length * back.toNat ≤ 256 ^ init.length * 0x7f :=
        Nat.mul_le_mul_left _ (by omega)
      omega
    · intro hLt
      have hLe := (hSize (k + 1) value.natAbs).mpr (by omega)
      rw [hBytes] at hLe
      simpa using hLe

/-! ## Extracting what was written -/

section Written

variable {hash : UInt256}

theorem ofBytes_toBytes (hHash : hash < 2 ^ 256) :
    UInt256.ofBytes (hash.toBytes.map UInt8.ofNat) = hash := by
  have hBytes : hash.toBytes.foldr (fun b n => (UInt8.ofNat b).toNat + 256 * n) 0 =
      hash.toBytes.foldr (fun b n => b + 256 * n) 0 := by
    refine foldr_ext _ _ _ fun b hb n => ?_
    rw [UInt8.toNat_ofNat', Nat.mod_eq_of_lt (toBytes_lt b hb)]
  rw [UInt256.ofBytes, foldr_map, hBytes]
  exact (foldr_bytes 32 hash).trans (Nat.mod_eq_of_lt hHash)

theorem length_hashBytes : (hash.toBytes.map UInt8.ofNat).length = 32 := by
  rw [length_map, UInt256.toBytes, length_map, length_range]

theorem length_voteScript (opcodes : List UInt8) :
    (voteScript opcodes hash).length = opcodes.length + 33 := by
  rw [voteScript, length_append, length_cons, length_hashBytes]

/-- The bytes between the opcodes and what may follow the hash. -/
theorem hashBytes_voteScript (hash : UInt256) (opcodes rest : List UInt8) :
    ((voteScript opcodes hash ++ rest).drop (opcodes.length + 1)).take 32 =
      hash.toBytes.map UInt8.ofNat := by
  rw [voteScript, append_assoc, ← drop_drop, drop_left]
  exact take_left' length_hashBytes

theorem isDaoVoteOf_voteScript (family choice family' choice' : UInt8) :
    isDaoVoteOf family choice (voteScript [OP_RETURN, family', choice'] hash) =
      (family' == family && choice' == choice) := by
  rw [isDaoVoteOf, hasShape, length_voteScript]
  simp [voteScript]

/-- The vote on an answer or on a value, by what follows the hash. -/
def valueAfter (hash : UInt256) : List UInt8 → Option (Option (UInt256 × Int))
  | [] => some (some (hash, 1))
  | size :: vch =>
    if vch = [] ∧ size = 0 then some (some (hash, 0))
    else (scriptNumInt vch).map fun v => some (hash, v)

/-- What is extracted from a consultation vote. -/
theorem extractConsultationVote_voteScript (hHash : hash < 2 ^ 256) (choice : UInt8)
    (rest : List UInt8)
    (hKind : isConsultationVote (voteScript [OP_RETURN, OP_CONSULTATION, choice] hash ++ rest) =
      true) :
    extractConsultationVote (voteScript [OP_RETURN, OP_CONSULTATION, choice] hash ++ rest) =
      if choice = OP_REMOVE then some (some (hash, VOTE_REMOVE))
      else if choice = OP_ABSTAIN then some (some (hash, VOTE_ABSTAIN))
      else valueAfter hash rest := by
  have hBytes : ((voteScript [OP_RETURN, OP_CONSULTATION, choice] hash ++ rest).drop 4).take 32 =
      hash.toBytes.map UInt8.ofNat :=
    hashBytes_voteScript hash [OP_RETURN, OP_CONSULTATION, choice] rest
  have hChoice : (voteScript [OP_RETURN, OP_CONSULTATION, choice] hash ++ rest)[2]? =
      some choice := rfl
  have hLength : (voteScript [OP_RETURN, OP_CONSULTATION, choice] hash).length = 36 :=
    length_voteScript _
  simp only [extractConsultationVote, hKind, hBytes, hChoice, ofBytes_toBytes hHash,
    Bool.not_true, Bool.false_eq_true, if_false, beq_iff_eq, some.injEq]
  refine if_congr Iff.rfl rfl (if_congr Iff.rfl rfl ?_)
  cases rest with
  | nil => simp [hLength, valueAfter]
  | cons size vch =>
    have hSize : (voteScript [OP_RETURN, OP_CONSULTATION, choice] hash ++ size :: vch)[36]? =
        some size := by
      rfl
    have hRest : (voteScript [OP_RETURN, OP_CONSULTATION, choice] hash ++ size :: vch).drop 37 =
        vch := by
      rfl
    have hLong : (voteScript [OP_RETURN, OP_CONSULTATION, choice] hash ++ size :: vch).length =
        37 + vch.length := by
      rw [length_append, length_cons]
      omega
    rw [hLong, if_pos (by omega), hSize, hRest, valueAfter]
    simp

theorem extractConsultationVote_remove (hHash : hash < 2 ^ 256) :
    extractConsultationVote (setScriptForConsultationVoteRemove hash) =
      some (some (hash, VOTE_REMOVE)) := by
  have hKind : isConsultationVote (setScriptForConsultationVoteRemove hash) = true := by
    simp [isConsultationVote, isConsultationVoteRemove, setScriptForConsultationVoteRemove,
      isDaoVoteOf_voteScript]
  have hRead := extractConsultationVote_voteScript hHash OP_REMOVE []
  exact hRead hKind

theorem extractConsultationVote_abstain (hHash : hash < 2 ^ 256) :
    extractConsultationVote (setScriptForConsultationVote hash VOTE_ABSTAIN) =
      some (some (hash, VOTE_ABSTAIN)) := by
  have hKind : isConsultationVote (setScriptForConsultationVote hash VOTE_ABSTAIN) = true := by
    have hForm : setScriptForConsultationVote hash VOTE_ABSTAIN =
      voteScript [OP_RETURN, OP_CONSULTATION, OP_ABSTAIN] hash := rfl
    simp [isConsultationVote, isConsultationVoteAbstention, hForm, isDaoVoteOf_voteScript]
  have hRead := extractConsultationVote_voteScript hHash OP_ABSTAIN []
  exact hRead hKind

/-- A value is extracted unless its number takes more than four bytes; then there is an
exception. -/
theorem extractConsultationVote_value (hHash : hash < 2 ^ 256) {vote : Int} (hVote : 0 ≤ vote) :
    extractConsultationVote (setScriptForConsultationVote hash vote) =
      if vote < 2 ^ 31 then some (some (hash, vote)) else none := by
  have hForm : setScriptForConsultationVote hash vote =
      voteScript [OP_RETURN, OP_CONSULTATION, OP_ANSWER] hash ++
        UInt8.ofNat (serializeScriptNum vote).length :: serializeScriptNum vote := by
    have hAnswer : vote ≠ VOTE_ABSTAIN := by
      unfold VOTE_ABSTAIN
      omega
    rw [setScriptForConsultationVote, if_neg hAnswer, if_pos (by omega), pushBytes]
  have hKind : isConsultationVote (setScriptForConsultationVote hash vote) = true := by
    have hAnswer : isConsultationVoteAnswer (setScriptForConsultationVote hash vote) = true := by
      rw [isConsultationVoteAnswer, hForm, length_append, length_voteScript]
      simp [voteScript]
    rw [isConsultationVote, hAnswer, Bool.true_or, Bool.true_or]
  rw [hForm] at hKind ⊢
  rw [extractConsultationVote_voteScript hHash OP_ANSWER _ hKind, if_neg (by decide),
    if_neg (by decide)]
  have hShort : 4 < (serializeScriptNum vote).length ↔ ¬ vote < 2 ^ 31 := by
    have hLength := length_serializeScriptNum_le_iff 3 vote
    omega
  rw [valueAfter]
  split
  next hEmpty =>
    -- only zero takes no byte
    have hZero := scriptNumValue_serialize vote
    rw [hEmpty.1] at hZero
    obtain rfl : 0 = vote := hZero
    rfl
  next =>
    rw [scriptNumInt, scriptNumValue_serialize]
    by_cases hLong : vote < 2 ^ 31
    · rw [if_neg (by rw [hShort]; exact not_not.mpr hLong), if_pos hLong]
      rfl
    · rw [if_pos (hShort.mpr hLong), if_neg hLong]
      rfl

end Written

end CScript

/-! ## The votes that a consultation admits -/

open CScript

/-- The votes that an accepted consultation admits: abstention, or a value that is not negative. -/
theorem isValidVote_bounds {node : Node} {chainActive pindexPrev : Chain} {view : CStateView}
    {tx : CTransaction} {blockhash : UInt256} {nMaskVersion : Nat} {c : CConsultation}
    {answers : List CConsultationAnswer} {vote : Int}
    (hValid : isValidConsultation node chainActive view tx nMaskVersion = true)
    (hStored : txToConsultation node pindexPrev tx blockhash = some (c, answers))
    (hInt : -2 ^ 63 ≤ vote ∧ vote < 2 ^ 63) (hVote : c.isValidVote vote = true) :
    vote = VOTE_ABSTAIN ∨ 0 ≤ vote := by
  simp only [CConsultation.isValidVote, or_eq_true, and_eq_true, beq_iff_eq,
    decide_eq_true_eq] at hVote
  rcases hVote with hAbstain | ⟨⟨hRange, -⟩, hHigh⟩
  · exact .inl hAbstain
  · simp only [txToConsultation, Option.bind_eq_bind, Option.bind_eq_some_iff, Option.pure_def,
      Option.some.injEq, Prod.mk.injEq] at hStored
    obtain ⟨metadata, hRead, sQuestion, -, nMin, -, nMax, hMax, v, hVersion, rfl, -⟩ := hStored
    obtain ⟨nMin', nMax', -, v', -, hMax', -, hVersion', -, hBounds, -⟩ :=
      isValidConsultation_true hValid hRead
    obtain rfl := Option.some.inj (hVersion.symm.trans hVersion')
    obtain rfl := Option.some.inj (hMax.symm.trans hMax')
    have hFlag : CConsultation.ANSWER_IS_A_RANGE_VERSION < 2 ^ 32 := by decide
    rw [CConsultation.isRange, ← versionHas_toI32 v hFlag] at hRange
    obtain ⟨hMinPos, hMinMax⟩ := hBounds hRange
    have hMaxBound := (UniValue.getInt64_bounds hMax).2
    dsimp only at hHigh
    unfold toU64 at hHigh
    omega

/-- **When a consultation vote is extracted as it was written.**  The vote is abstention or a value
of the range; the script that removes a vote is always read back.  A value of `2^31` or more takes
five bytes, and reading those throws. -/
theorem consultationVote_reads_iff {node : Node} {chainActive pindexPrev : Chain}
    {view : CStateView}
    {tx : CTransaction} {blockhash : UInt256} {nMaskVersion : Nat} {c : CConsultation}
    {answers : List CConsultationAnswer} {hash : UInt256} {vote : Int} (hHash : hash < 2 ^ 256)
    (hValid : isValidConsultation node chainActive view tx nMaskVersion = true)
    (hStored : txToConsultation node pindexPrev tx blockhash = some (c, answers))
    (hInt : -2 ^ 63 ≤ vote ∧ vote < 2 ^ 63) (hVote : c.isValidVote vote = true) :
    (extractConsultationVote (setScriptForConsultationVote hash vote) = some (some (hash, vote)) ∧
        extractConsultationVote (setScriptForConsultationVoteRemove hash) =
          some (some (hash, VOTE_REMOVE))) ↔
      vote < 2 ^ 31 := by
  have hRemove := extractConsultationVote_remove hHash
  rcases isValidVote_bounds hValid hStored hInt hVote with rfl | hPos
  · exact iff_of_true ⟨extractConsultationVote_abstain hHash, hRemove⟩ (by decide)
  · rw [extractConsultationVote_value hHash hPos]
    by_cases hSmall : vote < 2 ^ 31
    · rw [if_pos hSmall]
      exact iff_of_true ⟨rfl, hRemove⟩ hSmall
    · rw [if_neg hSmall]
      exact iff_of_false (fun h => nomatch h.1) hSmall

/-- A consultation whose answers are the numbers up to `2^32`. -/
def wideRange : List (String × UniValue) :=
  [("m", .vnum "0"), ("n", .vnum "4294967296"), ("q", .vstr "a question"), ("v", .vnum "3")]

theorem consultationVote_reads_seven :
    ∃ c answers, txToConsultation (DaoKind.reading wideRange) []
      (DaoKind.contributing 100000000) 7 =
        some (c, answers) ∧ c.isValidVote 7 = true ∧
      extractConsultationVote (setScriptForConsultationVote 5 7) = some (some (5, 7)) := by
  obtain ⟨c, answers, hStored, hVote⟩ : ∃ c answers, txToConsultation (DaoKind.reading wideRange) []
      (DaoKind.contributing 100000000) 7 = some (c, answers) ∧ c.isValidVote 7 = true := by
    decide +kernel
  have hValid : isValidConsultation (DaoKind.reading wideRange) [] .empty
      (DaoKind.contributing 100000000) 31 = true := by decide +kernel
  have hHash : (5 : UInt256) < 2 ^ 256 := by decide
  exact ⟨c, answers, hStored, hVote,
    ((consultationVote_reads_iff hHash hValid hStored (by decide) hVote).mpr (by decide)).1⟩

/-- **A value that cannot be voted for.**  The consultation is accepted and admits `2^31`, but the
script of that vote makes `ExtractConsultationVote` throw. -/
theorem consultationVote_throws :
    isValidConsultation (DaoKind.reading wideRange) [] .empty (DaoKind.contributing 100000000) 31 =
        true ∧
      (txToConsultation (DaoKind.reading wideRange) [] (DaoKind.contributing 100000000) 7).any
        (fun it => it.1.isValidVote (2 ^ 31)) = true ∧
      extractConsultationVote (setScriptForConsultationVote 5 (2 ^ 31)) = none := by
  decide +kernel

/-! ## Totality -/

namespace CScript

variable {s : CScript}

theorem isConsultationVote_choice (h : isConsultationVote s = true) :
    isConsultationVoteAnswer s = true ∨
      (s.length = 36 ∧ (s[2]? = some OP_ABSTAIN ∨ s[2]? = some OP_REMOVE)) := by
  simp only [isConsultationVote, or_eq_true] at h
  rcases h with (hAnswer | hAbstain) | hRemove
  · exact .inl hAnswer
  · simp only [isConsultationVoteAbstention, isDaoVoteOf, hasShape, and_eq_true,
      beq_iff_eq, all_cons] at hAbstain
    exact .inr ⟨hAbstain.1, .inl hAbstain.2.2.2.1⟩
  · simp only [isConsultationVoteRemove, isDaoVoteOf, hasShape, and_eq_true,
      beq_iff_eq, all_cons] at hRemove
    exact .inr ⟨hRemove.1, .inr hRemove.2.2.2.1⟩

theorem isConsultationVoteAnswer_choice (h : isConsultationVoteAnswer s = true) :
    s[2]? = some OP_ANSWER := by
  simp only [isConsultationVoteAnswer, and_eq_true, beq_iff_eq] at h
  have hThird : (s.take 4)[2]? = s[2]? := getElem?_take_of_lt (by decide)
  rw [← hThird, h.2]
  rfl

/-- Extraction fails on an answer vote with too long a number, and on nothing else. -/
theorem extractConsultationVote_isSome_iff (h : isConsultationVote s = true) :
    (∃ v, extractConsultationVote s = some (some v)) ↔
      ¬ (isConsultationVoteAnswer s = true ∧ 41 < s.length) := by
  simp only [extractConsultationVote, h, Bool.not_true, Bool.false_eq_true, if_false]
  rcases isConsultationVote_choice h with hAnswer | ⟨hLength, hChoice⟩
  · have hChoice := isConsultationVoteAnswer_choice hAnswer
    rw [hChoice, if_neg (by decide), if_neg (by decide)]
    by_cases hLong : 41 < s.length
    · have hNumber : 4 < (s.drop 37).length := by
        rw [length_drop]
        omega
      have hSize : (s.length == 37 && s[36]? == some 0x00) = false := by
        rw [beq_false_of_ne (by omega), Bool.false_and]
      rw [if_pos (by omega), hSize, scriptNumInt]
      simp [hAnswer, hLong]
    · have hNumber : ¬ 4 < (s.drop 37).length := by
        rw [length_drop]
        omega
      rw [scriptNumInt]
      refine iff_of_true ?_ fun hBad => hLong hBad.2
      split
      · split
        · exact ⟨_, rfl⟩
        · exact ⟨_, rfl⟩
      · exact ⟨_, rfl⟩
  · refine iff_of_true ?_ (by omega)
    rcases hChoice with hAbstain | hRemove
    · rw [hAbstain]
      exact ⟨_, rfl⟩
    · rw [hRemove]
      exact ⟨_, rfl⟩

theorem extractVote_isSome (h : (isProposalVote s || isPaymentRequestVote s) = true) :
    (∃ v, extractVote s = some v) ∧ s.length = 37 := by
  constructor
  · rw [Bool.or_comm] at h
    have hSome : (!isPaymentRequestVote s && !isProposalVote s) = false := by
      rw [← Bool.not_or, h]
      rfl
    rw [extractVote, hSome]
    exact ⟨_, rfl⟩
  · simp only [isProposalVote, isPaymentRequestVote, Bool.or_eq_true] at h
    rcases h with (((h | h) | h) | h) | (((h | h) | h) | h)
    all_goals exact length_of_hasShape h

theorem extractSupportVote_isSome (h : isSupportVote s = true) :
    (∃ v, extractSupportVote s = some v) ∧ s.length = 36 := by
  constructor
  · rw [extractSupportVote, h]
    exact ⟨_, rfl⟩
  · simp only [isSupportVote, or_eq_true] at h
    rcases h with h | h
    all_goals exact length_of_hasShape h

end CScript

/-- The outputs from which `ConnectBlock` gets a vote, or finds that there is none. -/
theorem outputVote_isSome_iff (out : CTxOut) : (∃ v, outputVote out = some v) ↔
      ¬ (isConsultationVoteAnswer out.scriptPubKey = true ∧ 41 < out.scriptPubKey.length) := by
  unfold outputVote
  split
  next hVote =>
    obtain ⟨⟨v, hSome⟩, hLength⟩ := extractVote_isSome hVote
    rw [hSome]
    exact iff_of_true ⟨_, rfl⟩ (by omega)
  next =>
    split
    next hSupport =>
      obtain ⟨⟨v, hSome⟩, hLength⟩ := extractSupportVote_isSome hSupport
      rw [hSome]
      exact iff_of_true ⟨_, rfl⟩ (by omega)
    next =>
      split
      next hConsultation =>
        rw [← extractConsultationVote_isSome_iff hConsultation]
        constructor
        · rintro ⟨v, hSome⟩
          obtain ⟨w, hExtract, hMap⟩ := bind_eq_some_iff.mp hSome
          obtain ⟨x, rfl, -⟩ := map_eq_some_iff.mp hMap
          exact ⟨x, hExtract⟩
        · rintro ⟨v, hExtract⟩
          rw [hExtract]
          exact ⟨_, rfl⟩
      next hOther =>
        refine iff_of_true ⟨_, rfl⟩ fun hLong => hOther ?_
        show isConsultationVote out.scriptPubKey = true
        rw [isConsultationVote, hLong.1, Bool.true_or, Bool.true_or]

/-- Taking a vote fails only where it cannot be extracted. -/
theorem takeVote_ok_iff (ctx : ConnectContext) (i : Nat) (voterScript : List UInt8)
    (st : ConnectState × Map UInt256 Int) (out : CTxOut) :
    (∃ st', takeVote ctx i voterScript st out = .ok st') ↔ ∃ v, outputVote out = some v := by
  unfold takeVote
  cases outputVote out with
  | none => exact iff_of_false (fun ⟨_, h⟩ => nomatch h) (fun ⟨_, h⟩ => nomatch h)
  | some found =>
    refine iff_of_true ?_ ⟨found, rfl⟩
    cases found with
    | none => exact ⟨st, rfl⟩
    | some found =>
      dsimp only [ConnectState.require, bind, Except.bind]
      repeat' split
      all_goals exact ⟨_, rfl⟩

/-- **The scripts whose vote can be extracted.**  Every vote script has its vote extracted, and none
makes `ConnectBlock` fail, except the answer votes that carry a number of more than four bytes. -/
theorem extraction_total_iff (s : CScript) :
    (((isProposalVote s || isPaymentRequestVote s) = true →
        ∃ v, extractVote s = some v) ∧
      (isSupportVote s = true → ∃ v, extractSupportVote s = some v) ∧
      (isConsultationVote s = true → ∃ v, extractConsultationVote s = some (some v)) ∧
      ∀ ctx i voterScript st nValue, ∃ st', takeVote ctx i voterScript st ⟨nValue, s⟩ = .ok st') ↔
    ¬ (isConsultationVoteAnswer s = true ∧ 41 < s.length) := by
  constructor
  · rintro ⟨-, -, hConsultation, -⟩ hLong
    have hVote : isConsultationVote s = true := by
      rw [isConsultationVote, hLong.1, Bool.true_or, Bool.true_or]
    exact (extractConsultationVote_isSome_iff hVote).mp (hConsultation hVote) hLong
  · intro hShort
    refine ⟨fun h => (extractVote_isSome h).1, fun h => (extractSupportVote_isSome h).1,
      fun h => (extractConsultationVote_isSome_iff h).mpr hShort, ?_⟩
    intro ctx i voterScript st nValue
    exact (takeVote_ok_iff ctx i voterScript st ⟨nValue, s⟩).mpr
      ((outputVote_isSome_iff ⟨nValue, s⟩).mpr hShort)

/-- **A vote that aborts `ConnectBlock`.**  The script votes for an answer, with a number of five
bytes that no answer needs. -/
theorem extraction_throws :
    let s := voteScript [OP_RETURN, OP_CONSULTATION, OP_ANSWER] 5 ++ [5, 1, 2, 3, 4, 5]
    isConsultationVote s = true ∧ extractConsultationVote s = none ∧
      outputVote ⟨0, s⟩ = none := by
  decide +kernel

/-! ## The voter's key -/

namespace CScript

/-- The 20-byte hash that identifies a voter: that of the voting key of a cold staking script, and
that of the key of a script that pays to one. -/
def voterKeyHash (s : CScript) : List UInt8 :=
  if isColdStakingv2 s then (s.drop 1).take 20 else (s.drop 3).take 20

/-- `GetStakerScript` cuts one byte too early: it takes the byte that pushes the hash, and not the
last byte of the hash. -/
theorem getStakerScript_eq {s : CScript}
    (h : isPayToPublicKeyHash s = true ∨ isColdStakingv2 s = true) :
    getStakerScript s = 0x14 :: (voterKeyHash s).take 19 := by
  have hCut (k : Nat) (hHead : s[k]? = some 0x14) :
      (s.drop k).take 20 = 0x14 :: ((s.drop (k + 1)).take 20).take 19 := by
    rw [getElem?_eq_some_iff] at hHead
    obtain ⟨hLt, hByte⟩ := hHead
    rw [drop_eq_getElem_cons hLt, hByte, take_take]
    rfl
  unfold getStakerScript voterKeyHash
  by_cases hCold : isColdStakingv2 s = true
  · rw [if_pos hCold, if_pos hCold]
    simp only [isColdStakingv2, hasShape, and_eq_true, beq_iff_eq, all_cons] at hCold
    exact hCut 0 hCold.2.1
  · have hPays : isPayToPublicKeyHash s = true := h.resolve_right hCold
    rw [if_neg hCold, if_neg hCold, if_pos hPays]
    simp only [isPayToPublicKeyHash, hasShape, and_eq_true, beq_iff_eq, all_cons] at hPays
    exact hCut 2 hPays.2.2.2.1

/-- The script that pays to the hash of a key. -/
def payToKeyHash (hash : List UInt8) : CScript :=
  [OP_DUP, OP_HASH160, 0x14] ++ hash ++ [OP_EQUALVERIFY, OP_CHECKSIG]

/-- **When two voters have different keys.**  Voters with different hashes have different keys, and
neither touches the votes kept for the other, exactly when the hashes differ before their last
byte. -/
theorem stakerScript_injective_iff {s t : CScript}
    (hs : isPayToPublicKeyHash s = true ∨ isColdStakingv2 s = true)
    (ht : isPayToPublicKeyHash t = true ∨ isColdStakingv2 t = true) :
    ((getStakerScript s = getStakerScript t ↔ voterKeyHash s = voterKeyHash t) ∧
      (voterKeyHash s ≠ voterKeyHash t → ∀ (view : CStateView) height hash vote,
        (view.setVote (getStakerScript s) height hash vote).votes[getStakerScript t]? =
          view.votes[getStakerScript t]?)) ↔
    (voterKeyHash s ≠ voterKeyHash t → (voterKeyHash s).take 19 ≠ (voterKeyHash t).take 19) := by
  have hKeys : getStakerScript s = getStakerScript t ↔
      (voterKeyHash s).take 19 = (voterKeyHash t).take 19 := by
    rw [getStakerScript_eq hs, getStakerScript_eq ht, cons.injEq, and_iff_right rfl]
  constructor
  · rintro ⟨hSame, -⟩ hDiffer hPrefix
    exact hDiffer (hSame.mp (hKeys.mpr hPrefix))
  · intro hApart
    refine ⟨⟨fun hKey => ?_, fun hHash => hKeys.mpr (congrArg (take 19) hHash)⟩, ?_⟩
    · by_contra hDiffer
      exact hApart hDiffer (hKeys.mp hKey)
    · intro hDiffer view height hash vote
      have hKey : getStakerScript s ≠ getStakerScript t := fun hKey =>
        hApart hDiffer (hKeys.mp hKey)
      exact (Map.getElem?_setUnless _ _ _ _ _).trans (if_neg hKey)

theorem stakerScript_injective_first :
    getStakerScript (payToKeyHash (1 :: replicate 19 0)) ≠
      getStakerScript (payToKeyHash (2 :: replicate 19 0)) := by
  have hApart := (stakerScript_injective_iff (s := payToKeyHash (1 :: replicate 19 0))
    (t := payToKeyHash (2 :: replicate 19 0)) (.inl (by decide)) (.inl (by decide))).mpr
    (fun _ => by decide)
  exact fun hSame => absurd (hApart.1.mp hSame) (by decide)

/-- **Two voters with one key.**  The hashes differ in their last byte only, and the vote of one is
kept for the other. -/
theorem stakerScript_shared :
    let s := payToKeyHash (replicate 19 0 ++ [1])
    let t := payToKeyHash (replicate 19 0 ++ [2])
    (isPayToPublicKeyHash s = true ∧ isPayToPublicKeyHash t = true) ∧
      voterKeyHash s ≠ voterKeyHash t ∧ getStakerScript s = getStakerScript t ∧
      CStateView.empty.votes[getStakerScript t]?.isNone = true ∧
      ((CStateView.empty.setVote (getStakerScript s) 10 5 VOTE_YES).votes[getStakerScript t]?.any
        fun list => list.getList[5]? == some VOTE_YES) = true := by
  decide +kernel

end CScript

end Electrum
