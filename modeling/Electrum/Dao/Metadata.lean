import Electrum.Dao.VoteStep

/-!
# Governance transactions

Proposals, payment requests, consultations and answers are submitted as JSON in a
transaction's `strDZeel`.  This module holds the validators (`IsValid...`) and the
conversions to objects (`TxTo...`).  An exception that leaves a function is `none`.
-/

namespace Electrum

/-! ## JSON values -/

/-- `UniValue`; a number is kept as its text. -/
inductive UniValue
  | vnull
  | vbool (b : Bool)
  | vnum (val : String)
  | vstr (val : String)
  | varr (values : List UniValue)
  | vobj (keys : List (String × UniValue))

namespace UniValue

/-- `find_value`: the first value with the key, or null. -/
def findValue (obj : UniValue) (name : String) : UniValue :=
  match obj with
  | vobj keys => ((keys.find? (·.1 == name)).map (·.2)).getD vnull
  | _ => vnull

def isNum : UniValue → Bool
  | vnum _ => true
  | _ => false

def isStr : UniValue → Bool
  | vstr _ => true
  | _ => false

/-- `get_str`; throws on anything else. -/
def getStr : UniValue → Option String
  | vstr val => some val
  | _ => none

/-- The integer a JSON number spells, if it is one within the bounds. -/
def parseInt (lo hi : Int) (val : String) : Option Int :=
  let (neg, digits) : Bool × List Char := match val.toList with
    | '-' :: rest => (true, rest)
    | rest => (false, rest)
  let n : Nat := digits.foldl (fun n ch => 10 * n + (ch.toNat - '0'.toNat)) 0
  let z : Int := if neg then -(n : Int) else n
  if !digits.isEmpty && digits.all (·.isDigit) && decide (lo ≤ z) && decide (z ≤ hi) then some z
  else none

/-- `get_int64`; throws on what is not a 64-bit integer. -/
def getInt64 : UniValue → Option Int
  | vnum val => parseInt (-2 ^ 63) (2 ^ 63 - 1) val
  | _ => none

/-- `get_int`. -/
def getInt : UniValue → Option Int
  | vnum val => parseInt (-2 ^ 31) (2 ^ 31 - 1) val
  | _ => none

/-- The elements of an array; anything else counts as empty. -/
def elements : UniValue → List UniValue
  | varr values => values
  | _ => []

end UniValue

/-! ## Hashes as text -/

def hexDigit (n : Nat) : Char := if n < 10 then Char.ofNat (48 + n) else Char.ofNat (87 + n)

/-- `HexDigit`, `none` for -1. -/
def hexValue (ch : Char) : Option Nat :=
  if '0' ≤ ch ∧ ch ≤ '9' then some (ch.toNat - 48)
  else if 'a' ≤ ch ∧ ch ≤ 'f' then some (ch.toNat - 87)
  else if 'A' ≤ ch ∧ ch ≤ 'F' then some (ch.toNat - 55)
  else none

/-- The 32 bytes of a hash in memory order. -/
def UInt256.toBytes (n : UInt256) : List Nat :=
  (List.range 32).map fun i => n / 256 ^ i % 256

/-- `GetHex`: two digits a byte, the last byte first. -/
def UInt256.getHex (n : UInt256) : String :=
  String.ofList (n.toBytes.reverse.flatMap fun b => [hexDigit (b / 16), hexDigit (b % 16)])

/-- Bytes from hexadecimal digits, least significant digit first. -/
def bytesOfNibbles : List Nat → List Nat
  | [] => []
  | [lo] => [lo]
  | lo :: hi :: rest => (lo + 16 * hi) :: bytesOfNibbles rest

/-- `base_blob::SetHex`, the bytes in memory: blanks and `0x` are skipped, the digits end at the
first other character, and those of the last `WIDTH` bytes count. -/
def setHex (WIDTH : Nat) (str : String) : List Nat :=
  let chars := str.toList.dropWhile fun ch => ch.isWhitespace || ch == '\u000b' || ch == '\u000c'
  let chars := match chars with
    | '0' :: x :: rest => if x == 'x' || x == 'X' then rest else chars
    | _ => chars
  let digits := (chars.map hexValue).takeWhile (·.isSome)
  let bytes := (bytesOfNibbles (digits.reduceOption.reverse)).take WIDTH
  bytes ++ List.replicate (WIDTH - bytes.length) 0

def uint256S (str : String) : UInt256 := (setHex 32 str).foldr (fun b n => b + 256 * n) 0

/-! ## What the rest of the node provides -/

/-- Functions of the node that the modelled code calls and that are not modelled themselves. -/
structure Node extends Env where
  /-- `UniValue::read` -/
  readJSON : String → Option UniValue
  /-- the hash of an answer: its parent's hash and its text -/
  hashAnswer : UInt256 → String → UInt256
  /-- `CElectrumAddress(str).IsValid()` -/
  isValidAddress : String → Bool
  /-- the signature recovers to the key of the address -/
  isSignedBy : (address secret signature : String) → Bool
  /-- `ExtractDestination` and the address it encodes to -/
  extractAddress : CScript → Option String
  /-- `GetTransaction`: the mempool, the transaction index and the block files -/
  getTransaction : UInt256 → Option CTransaction
  /-- `TransactionGetCoinAge` -/
  getCoinAge : CStateView → CTransaction → Option Nat
  /-- the checks of `CheckBlock` on header, merkle root, size, signature and sigops -/
  checkBlockRest : CBlock → Bool
  /-- the checks of `ConnectBlock` on target, kernel hash, entropy bit and stake modifier -/
  checkProof : Chain → CStateView → CBlock → Bool
  /-- scripts, sequence locks and sigops of a transaction -/
  checkInputsRest : Chain → CStateView → CTransaction → Bool
  /-- the `-testnet` argument -/
  fTestnet : Bool

/-- A node of the main network on which every check outside the model passes; it knows the
given transactions. -/
def Node.trusting (isActive : DeploymentPos → Chain → Bool) (mapBlockIndex : BlockMap)
    (known : List CTransaction) : Node where
  params := mainParams
  mapBlockIndex := mapBlockIndex
  isActive := isActive
  readJSON _ := none
  hashAnswer parent str := parent + str.length
  isValidAddress _ := true
  isSignedBy _ _ _ := true
  extractAddress _ := some ""
  getTransaction hash := known.find? fun tx => tx.hash == hash
  getCoinAge _ _ := some 0
  checkBlockRest _ := true
  checkProof _ _ _ := true
  checkInputsRest _ _ _ := true
  fTestnet := false

/-- `valRequest.read(strDZeel)` followed by `get_obj`. -/
def Node.readObject (node : Node) (strDZeel : String) : Option UniValue :=
  match node.readJSON strDZeel with
  | some (.vobj keys) => some (.vobj keys)
  | _ => none

/-- Conversion to `int`. -/
def toI32 (z : Int) : Int := (z + 2 ^ 31) % 2 ^ 32 - 2 ^ 31

/-- The flags of a version are the same in `int` and in `uint64_t`. -/
theorem versionHas_toI32 (z : Int) {flag : Nat} (hFlag : flag < 2 ^ 32) :
    versionHas (toI32 z) flag = versionHas (toU64 z : Nat) flag := by
  have hLow (n : Nat) : n &&& flag = n % 2 ^ 32 &&& flag := by
    have hMod : (n &&& flag) % 2 ^ 32 = n % 2 ^ 32 &&& flag % 2 ^ 32 := Nat.and_mod_two_pow
    rwa [Nat.mod_eq_of_lt (Nat.lt_of_le_of_lt Nat.and_le_right hFlag), Nat.mod_eq_of_lt hFlag]
      at hMod
  have hSame : toU64 (toI32 z) % 2 ^ 32 = toU64 ((toU64 z : Nat) : Int) % 2 ^ 32 := by
    unfold toI32 toU64
    omega
  rw [versionHas, versionHas, hLow (toU64 (toI32 z)), hSame, ← hLow]

/-- `(nVersion & ~nMaskVersion) == 0`. -/
def withinMask (nVersion : Int) (nMaskVersion : Nat) : Bool :=
  toU64 nVersion &&& nMaskVersion == toU64 nVersion

/-- `find_value(metadata, "v")`, with a default; the outer `none` is an exception. -/
def metadataVersion (metadata : UniValue) (default : Int) : Option Int :=
  let v := metadata.findValue "v"
  if v.isNum then v.getInt64 else some default

/-! ## Version masks -/

structure VersionMask where
  nProposalMask : Nat
  nPaymentRequestMask : Nat
  nConsultationMask : Nat
  nConsultationAnswerMask : Nat

/-- Clear a flag in a mask. -/
def clearFlag (mask flag : Nat) : Nat := mask - (mask &&& flag)

/-- `GetVersionMask`. -/
def getVersionMask (env : Env) (pindex : Chain) : VersionMask :=
  let p := env.params
  let clear (fOn : Bool) (mask flag : Nat) : Nat := if fOn then mask else clearFlag mask flag
  let fReducedQuorum := env.isActive .quorumCFund pindex
  let fAbstainVote := env.isActive .consultations pindex
  let fExclude := env.isActive .exclude pindex
  { nProposalMask :=
      clear fExclude (clear fAbstainVote (clear fReducedQuorum p.nProposalMaxVersion
        CProposal.REDUCED_QUORUM_VERSION) CProposal.ABSTAIN_VOTE_VERSION)
        CProposal.EXCLUDE_VERSION
    nPaymentRequestMask :=
      clear fExclude (clear fAbstainVote (clear fReducedQuorum p.nPaymentRequestMaxVersion
        CPaymentRequest.REDUCED_QUORUM_VERSION) CPaymentRequest.ABSTAIN_VOTE_VERSION)
        CPaymentRequest.EXCLUDE_VERSION
    nConsultationMask := clear fExclude p.nConsultationMaxVersion CConsultation.EXCLUDE_VERSION
    nConsultationAnswerMask :=
      clear fExclude p.nConsultationAnswerMaxVersion CConsultationAnswer.EXCLUDE_VERSION }

/-! ## Proposals and payment requests -/

/-- `IsValidProposal`. -/
def isValidProposal (node : Node) (view : CStateView) (tx : CTransaction) (nMaskVersion : Nat) :
    Option Bool :=
  if 1024 < tx.strDZeel.utf8ByteSize then some false
  else match node.readObject tx.strDZeel with
  | none => some false
  | some metadata =>
    let n := metadata.findValue "n"
    let a := metadata.findValue "a"
    let d := metadata.findValue "d"
    let s := metadata.findValue "s"
    if !(n.isNum && a.isStr && d.isNum && s.isStr) then some false
    else do
      let nAmount ← n.getInt64
      let ownerAddress ← a.getStr
      let paymentAddress := ((metadata.findValue "p").getStr).getD ownerAddress
      let nDeadline ← d.getInt64
      let nVersion ← metadataVersion metadata 1
      return node.isValidAddress ownerAddress && node.isValidAddress paymentAddress &&
        decide (getConsensusParameter node.toEnv view .proposalMinFee ≤ toU64 tx.getValueOutCFund) &&
        ownerAddress != "" && paymentAddress != "" && decide (nAmount < MAX_MONEY) &&
        decide (0 < nAmount) && decide (0 < nDeadline) && withinMask (toI32 nVersion) nMaskVersion

/-- `TxToProposal`.  The payment address is read from `"a"`, the owner's key. -/
def txToProposal (node : Node) (tx : CTransaction) (blockhash : UInt256)
    (nProposalFee : Int) : Option CProposal := do
  let metadata ← node.readObject tx.strDZeel
  let v := metadata.findValue "v"
  let nVersion ← if v.isNum then v.getInt else some 1
  let nAmount ← (metadata.findValue "n").getInt64
  let ownerAddress ← (metadata.findValue "a").getStr
  let fPaymentAddress := (metadata.findValue "p").isStr
  let flag := CProposal.PAYMENT_ADDRESS_VERSION
  let fHas := versionHas nVersion flag
  let nVersion : Int := if fPaymentAddress then (if fHas then nVersion else nVersion + flag)
    else (if fHas then nVersion - flag else nVersion)
  let nDeadline ← (metadata.findValue "d").getInt64
  let strDZeel ← (metadata.findValue "s").getStr
  if nAmount < 0 then none
  else return {
    nAmount := nAmount, nFee := nProposalFee, ownerAddress := ownerAddress,
    paymentAddress := ownerAddress, nDeadline := toU64 nDeadline % 2 ^ 32, mapState := ∅,
    nVotesYes := 0, nVotesNo := 0, nVotesAbs := 0, nExclude := 0, strDZeel := strDZeel,
    hash := tx.hash, txblockhash := blockhash, nVersion := nVersion, nVotingCycle := 0 }

/-- The text whose signature authorises a payment request. -/
def requestSecret (sRandom : String) (nAmount : Int) (proposalhash : UInt256)
    (strDZeel : String) : String :=
  sRandom ++ "I kindly ask to withdraw " ++ toString nAmount ++ "0AE from the proposal " ++
    proposalhash.getHex ++ ". Payment request id: " ++ strDZeel

/-- `IsValidPaymentRequest`.  The last test compares `(fee is paid && nVersion & ~mask)` with
0, so the version is checked only when the fee is paid and an unpaid fee passes. -/
def isValidPaymentRequest (node : Node) (view : CStateView) (tx : CTransaction)
    (nMaskVersion : Nat) : Option Bool :=
  if 1024 < tx.strDZeel.utf8ByteSize then some false
  else match node.readObject tx.strDZeel with
  | none => some false
  | some metadata =>
    let n := metadata.findValue "n"
    let s := metadata.findValue "s"
    let h := metadata.findValue "h"
    let i := metadata.findValue "i"
    if !(n.isNum && s.isStr && h.isStr && i.isStr) then some false
    else do
      let nAmount ← n.getInt64
      let signature ← s.getStr
      let hash ← h.getStr
      let strDZeel ← i.getStr
      let nVersion ← (metadataVersion metadata 1).map toI32
      if nAmount < 0 then return false
      match view.getProposal (uint256S hash) with
      | none => return false
      | some proposal =>
        let r := (metadata.findValue "r").getStr
        let sRandom := if CPaymentRequest.BASE_VERSION ≤ toU64 nVersion then r.getD "" else ""
        let fPaid := decide (getConsensusParameter node.toEnv view .paymentRequestMinFee ≤
          toU64 tx.getValueOutCFund)
        if proposal.getLastState node.mapBlockIndex != .accepted then return false
        -- the message for this failure has fewer places than arguments, so formatting it throws
        else if !node.isValidAddress proposal.ownerAddress then none
        else return node.isSignedBy proposal.ownerAddress
              (requestSecret sRandom nAmount proposal.hash strDZeel) signature &&
          decide (nAmount ≤ proposal.getAvailable node.toEnv view true) &&
          !(fPaid && !withinMask nVersion nMaskVersion)

/-- `TxToPaymentRequest`. -/
def txToPaymentRequest (node : Node) (tx : CTransaction) (blockhash : UInt256) :
    Option CPaymentRequest := do
  let metadata ← node.readObject tx.strDZeel
  let nAmount ← (metadata.findValue "n").getInt64
  let hash ← (metadata.findValue "h").getStr
  let strDZeel ← (metadata.findValue "i").getStr
  let v := metadata.findValue "v"
  let nVersion ← if v.isNum then v.getInt else some 1
  if nAmount < 0 then none
  else return {
    nAmount := nAmount, mapState := ∅, hash := tx.hash,
    proposalhash := uint256S ("0x" ++ hash), txblockhash := blockhash,
    nVotesYes := 0, nVotesNo := 0, nVotesAbs := 0, nExclude := 0, strDZeel := strDZeel,
    nVersion := nVersion, nVotingCycle := 0 }

/-! ## Consultations and answers -/

/-- The consultations that the uniqueness tests look at: those of the mempool and those whose
block is in the active chain. -/
def isListed (env : Env) (chainActive : Chain) (c : CConsultation) : Bool :=
  c.txblockhash == 0 ||
    match env.mapBlockIndex[c.txblockhash]? with
    | none => false
    | some pindex => chainActive.contains pindex

/-- There already is an unfinished consultation about the parameter. -/
def hasActiveConsultation (env : Env) (chainActive : Chain) (view : CStateView) (pos : Nat) :
    Bool :=
  view.consultations.any fun _ c =>
    isListed env chainActive c && c.isAboutConsensusParameter && !c.isFinished env &&
      c.nMin == pos

/-- The value is in the range of the parameter's type. -/
def ConsensusParamType.admits (type : ConsensusParamType) (val : Nat) : Bool :=
  match type with
  | .typePercent => decide (val ≤ 10000)
  | .type0AE => decide ((val : Int) ≤ MAX_MONEY)
  | .typeNumber => decide (0 < val) && decide (val ≤ 2 ^ 24)
  | .typeBool => val == 0 || val == 1

/-- The parameter that must not be under consultation at the same time. -/
def ConsensusParamsPos.lookFor : ConsensusParamsPos → Option ConsensusParamsPos
  | .consultationMinCycles => some .consultationMaxSupportCycles
  | .consultationMaxSupportCycles => some .consultationMinCycles
  | _ => none

/-- `IsValidConsensusParameterProposal`; both callers catch the exception of `stoll`. -/
def isValidConsensusParameterProposal (env : Env) (chainActive : Chain) (view : CStateView)
    (pos : ConsensusParamsPos) (proposal : String) : Bool :=
  !proposal.isEmpty && proposal.toList.all (·.isDigit) &&
    match stoll proposal with
    | none => false
    | some z =>
      let val := toU64 z
      pos.type.admits val &&
        !(pos == .consultationMinCycles &&
          decide (getConsensusParameter env view .consultationMaxSupportCycles < val)) &&
        !(pos == .consultationMaxSupportCycles &&
          decide (val < getConsensusParameter env view .consultationMinCycles)) &&
        (match pos.lookFor with
          | none => true
          | some other => !hasActiveConsultation env chainActive view other.idx) &&
        val != getConsensusParameter env view pos

/-- The texts among the listed answers. -/
def answerTexts (metadata : UniValue) : List String :=
  ((metadata.findValue "a").elements.map UniValue.getStr).reduceOption

/-- The extra rules for a consultation about a consensus parameter. -/
def isValidParameterConsultation (env : Env) (chainActive : Chain) (view : CStateView)
    (nVersion nMin nMax : Int) (answers : List String) : Bool :=
  !versionHas nVersion CConsultation.ANSWER_IS_A_RANGE_VERSION &&
    versionHas nVersion CConsultation.MORE_ANSWERS_VERSION && nMax == 1 && decide (0 ≤ nMin) &&
    match ConsensusParamsPos.ofIdx nMin.toNat with
    | none => false
    | some pos =>
      !hasActiveConsultation env chainActive view pos.idx &&
        answers.all (isValidConsensusParameterProposal env chainActive view pos)

/-- The minimum fee of a consultation with a number of listed answers. -/
def consultationMinFee (env : Env) (view : CStateView) (nAnswers : Nat) : Int :=
  toI64 (getConsensusParameter env view .consultationMinFee +
    getConsensusParameter env view .consultationAnswerMinFee * nAnswers)

/-- `IsValidConsultation`; every exception is caught. -/
def isValidConsultation (node : Node) (chainActive : Chain) (view : CStateView)
    (tx : CTransaction) (nMaskVersion : Nat) : Bool :=
  if 1024 < tx.strDZeel.utf8ByteSize then false
  else match node.readObject tx.strDZeel with
  | none => false
  | some metadata =>
    let m := metadata.findValue "m"
    let n := metadata.findValue "n"
    let q := metadata.findValue "q"
    match (if m.isNum then m.getInt64 else some 0), n.getInt64, q.getStr,
        metadataVersion metadata CConsultation.BASE_VERSION with
    | some nMin, some nMax, some sQuestion, some v =>
      let nVersion := toI32 v
      let fRange := versionHas nVersion CConsultation.ANSWER_IS_A_RANGE_VERSION
      let fAcceptMoreAnswers := versionHas nVersion CConsultation.MORE_ANSWERS_VERSION
      let answers := answerTexts metadata
      let nAnswers := (metadata.findValue "a").elements.length
      (!versionHas nVersion CConsultation.CONSENSUS_PARAMETER_VERSION ||
          isValidParameterConsultation node.toEnv chainActive view nVersion nMin nMax answers) &&
        !(fRange && fAcceptMoreAnswers) &&
        (fAcceptMoreAnswers || fRange || decide (toU64 nMax ≤ nAnswers)) &&
        sQuestion != "" &&
        decide (consultationMinFee node.toEnv view nAnswers ≤ tx.getValueOutCFund) &&
        ((fRange && decide (0 ≤ nMin) && decide (toU64 nMax < 2 ^ 64 - 1) &&
            decide (nMin < nMax)) ||
          (!fRange && decide (0 < nMax) && decide (nMax < 16))) &&
        (fAcceptMoreAnswers || fRange || decide (1 < answers.dedup.length)) &&
        withinMask nVersion nMaskVersion
    | _, _, _, _ => false

/-- `TxToConsultation`.  A missing `"m"` throws here, although the validator reads it as 0. -/
def txToConsultation (node : Node) (pindexPrev : Chain) (tx : CTransaction)
    (blockhash : UInt256) : Option (CConsultation × List CConsultationAnswer) := do
  let metadata ← node.readObject tx.strDZeel
  let strDZeel ← (metadata.findValue "q").getStr
  let nMin ← (metadata.findValue "m").getInt64
  let nMax ← (metadata.findValue "n").getInt64
  let nVersion ← metadataVersion metadata CConsultation.BASE_VERSION
  let consultation : CConsultation := {
    mapState := ∅, hash := tx.hash, txblockhash := blockhash, nVersion := toU64 nVersion,
    nVotingCycle := 0, strDZeel := strDZeel, nSupport := 0, nMin := toU64 nMin,
    nMax := toU64 nMax, mapVotes := ∅, vAnswers := [], nExclude := 0 }
  let flag : Nat := if node.isActive .exclude pindexPrev then CConsultationAnswer.EXCLUDE_VERSION
    else 0
  let answers := if consultation.isRange then [] else
    -- each text once, in the order of its first occurrence
    (answerTexts metadata).reverse.dedup.reverse.map fun s => {
      nVersion := CConsultationAnswer.BASE_VERSION + flag, sAnswer := s, nVotes := 0,
      nSupport := 0, nExclude := 0, mapState := ∅, hash := node.hashAnswer tx.hash s,
      parent := tx.hash, txblockhash := blockhash, txhash := 0 }
  return (consultation, answers)

/-- `IsValidConsultationAnswer`; every exception is caught, and the version is not checked. -/
def isValidConsultationAnswer (node : Node) (chainActive : Chain) (view : CStateView)
    (tx : CTransaction) : Bool :=
  if 255 < tx.strDZeel.utf8ByteSize then false
  else match node.readObject tx.strDZeel with
  | none => false
  | some metadata =>
    match (metadata.findValue "a").getStr, (metadata.findValue "h").getStr,
        metadataVersion metadata CConsultationAnswer.BASE_VERSION with
    | some sAnswer, some hash, some _ =>
      match view.getConsultation (uint256S hash) with
      | none => false
      | some consultation =>
        sAnswer != "" && !view.answers.contains (node.hashAnswer (uint256S hash) sAnswer) &&
          !consultation.isRange &&
          (!consultation.isAboutConsensusParameter ||
            match ConsensusParamsPos.ofIdx consultation.nMin with
            | none => false
            | some pos => isValidConsensusParameterProposal node.toEnv chainActive view pos sAnswer) &&
          decide (getConsensusParameter node.toEnv view .consultationAnswerMinFee ≤
            toU64 tx.getValueOutCFund)
    | _, _, _ => false

/-- `TxToConsultationAnswer`. -/
def txToConsultationAnswer (node : Node) (tx : CTransaction) (blockhash : UInt256) :
    Option CConsultationAnswer := do
  let metadata ← node.readObject tx.strDZeel
  let sAnswer ← (metadata.findValue "a").getStr
  let hash ← (metadata.findValue "h").getStr
  let nVersion ← metadataVersion metadata CConsultationAnswer.BASE_VERSION
  return {
    nVersion := toI32 nVersion, sAnswer := sAnswer, nVotes := 0, nSupport := 0, nExclude := 0,
    mapState := ∅, hash := node.hashAnswer (uint256S hash) sAnswer, parent := uint256S hash,
    txblockhash := blockhash, txhash := tx.hash }

/-- `IsValidDaoTxVote`. -/
def isValidDaoTxVote (env : Env) (view : CStateView) (tx : CTransaction) : Bool :=
  tx.nVersion == CTransaction.VOTE_VERSION &&
    tx.vout.any (fun out => out.isVote || out.isSupportVote || out.isConsultationVote) &&
    decide (getConsensusParameter env view .daoVoteLightMinFee ≤ toU64 tx.getValueOutCFund)

end Electrum
