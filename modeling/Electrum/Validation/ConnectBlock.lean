import Electrum.Validation.ProofOfStake

/-!
# ConnectBlock

`CheckBlock` and `ConnectBlock`: every transaction is checked and applied to the view, votes
are recorded, governance objects are created, and the coinbase is held against the block's
reward and the accepted payment requests.

A rejected block is an error.  It carries the recorded votes, since these are global and what
the call added to them stays.
-/

namespace Electrum

/-- `CheckBlock`. -/
def checkBlock (node : Node) (block : CBlock) : Bool :=
  match block.vtx with
  | [] => false
  | coinbase :: rest =>
    node.checkBlockRest block && coinbase.isCoinBase && rest.all (fun tx => !tx.isCoinBase) &&
      -- the second transaction may be a coinstake; only then are the others looked at
      (!block.isProofOfStake || (rest.drop 1).all fun tx => !tx.isCoinStake) &&
      block.vtx.all checkTransaction

/-! ## Rewards -/

def getBlockSubsidy (nHeight : Nat) : Int := if nHeight == 1 then 50000000 * COIN else 0

/-- `IsCommunityFundAccumulationEnabled(pindexPrev, params, false)`. -/
def isCommunityFundAccumulationEnabled (env : Env) (pindexPrev : Chain) : Bool :=
  env.isActive .communityFund pindexPrev || env.isActive .communityFundAccumulation pindexPrev

/-- `GetFundContributionPerBlock`, in `uint64_t`. -/
def getFundContributionPerBlock (env : Env) (view : CStateView) : Nat :=
  getConsensusParameter env view .generationPerBlock *
    getConsensusParameter env view .fundPercentPerBlock % 2 ^ 64 / 10000

def getStakingRewardPerBlock (env : Env) (view : CStateView) : Nat :=
  sub64 (getConsensusParameter env view .generationPerBlock) (getFundContributionPerBlock env view)

def MAX_MINT_PROOF_OF_STAKE : Int := 10000000

/-- The yearly reward of one coin: all of `MAX_MINT_PROOF_OF_STAKE` in the first week, then a
half, and two fifths after two years once the fund accumulates. -/
def nRewardCoinYear (env : Env) (nHeight : Nat) (pindexPrev : Chain) : Int :=
  let nDaily : Int := env.params.nDailyBlockCount
  if (nHeight : Int) - 1 < 7 * nDaily then MAX_MINT_PROOF_OF_STAKE
  else if (nHeight : Int) - 1 < 730 * nDaily then MAX_MINT_PROOF_OF_STAKE / 2
  else if isCommunityFundAccumulationEnabled env pindexPrev then MAX_MINT_PROOF_OF_STAKE * 2 / 5
  else MAX_MINT_PROOF_OF_STAKE / 2

def getProofOfStakeReward (env : Env) (nHeight : Nat) (nCoinAge : Nat) (nFees : Int)
    (pindexPrev : Chain) (view : CStateView) : Int :=
  let nSubsidy : Int := if env.isActive .staticReward pindexPrev then
      toI64 (getStakingRewardPerBlock env view)
    else (nCoinAge * nRewardCoinYear env nHeight pindexPrev).tdiv 365
  nSubsidy + nFees

/-- `nMultiplier`: with spreading, the contribution of a whole period falls due at once. -/
def contributionMultiplier (env : Env) (pprev : Chain) (view : CStateView) (nHeight : Nat) :
    Int :=
  if env.isActive .communityFundAccumulationSpread pprev then
    let nSpread := getConsensusParameter env view .fundSpreadAccumulation
    if nHeight % nSpread == 0 then toI32 nSpread else 0
  else 1

/-- The contribution due from a block, before the multiplier. -/
def contributionDue (env : Env) (pprev : Chain) (view : CStateView) : Int :=
  if env.isActive .communityFundAmountV2 pprev then getFundContributionPerBlock env view
  else env.params.nCommunityFundAmount

/-! ## The loop over the transactions -/

/-- What `ConnectBlock` fixes before its loop. -/
structure ConnectContext where
  node : Node
  block : CBlock
  pindex : CBlockIndex
  pprev : Chain
  fStake : Bool
  fVoteCacheState : Bool
  fCFund : Bool
  fDAOConsultations : Bool
  fColdStakingv2 : Bool
  fStakerIsColdStakingv2 : Bool
  stakerScript : List UInt8
  mask : VersionMask

instance voterKeyOrd : Std.TransOrd (List UInt8 × UInt256) := inferInstance

/-- What the loop changes. -/
structure ConnectState where
  view : CStateView
  fund : Fund
  recorded : RecordedVotes
  /-- the votes taken so far, by voter and object -/
  votes : Map (List UInt8 × UInt256) Int
  nFees : Int
  nStakeReward : Int
  /-- undo data of the transactions after the coinbase -/
  vtxundo : List (List CTxInUndo)

/-- A step of `ConnectBlock`; a rejection keeps the recorded votes. -/
abbrev Outcome (α : Type) := Except RecordedVotes α

/-- Continue only if a check passes. -/
def ConnectState.ensure (st : ConnectState) (check : Bool) : Outcome ConnectState :=
  if check then .ok st else .error st.recorded

/-- Continue with a value, or reject when an exception or an error took its place. -/
def ConnectState.require {α : Type} (st : ConnectState) (value : Option α) : Outcome α :=
  match value with
  | some a => .ok a
  | none => .error st.recorded

namespace RecordedVotes

/-- `InsertProposalVotes(hash)->push_back`. -/
def pushProposalVote (r : RecordedVotes) (block hash : UInt256) (vote : Int) : RecordedVotes :=
  { r with vProposalVotes := Map.upsert r.vProposalVotes block [] (· ++ [(hash, vote)]) }

/-- `InsertPaymentRequestVotes(hash)->push_back`. -/
def pushPaymentRequestVote (r : RecordedVotes) (block hash : UInt256) (vote : Int) :
    RecordedVotes :=
  { r with vPaymentRequestVotes := Map.upsert r.vPaymentRequestVotes block [] (· ++ [(hash, vote)]) }

/-- `InsertSupport(hash)->insert`. -/
def insertSupport (r : RecordedVotes) (block hash : UInt256) : RecordedVotes :=
  { r with mapSupport := Map.upsert r.mapSupport block ∅ (·.insertIfNew hash true) }

/-- `InsertConsultationVotes(hash)->insert`. -/
def insertConsultationVote (r : RecordedVotes) (block hash : UInt256) (vote : Int) :
    RecordedVotes :=
  { r with mapConsultationVotes :=
      Map.upsert r.mapConsultationVotes block ∅ (·.insertIfNew hash (toU64 vote)) }

end RecordedVotes

/-! ### What can be voted on -/

section Votable

variable (env : Env) (view : CStateView) (hash : UInt256)

def votableProposal : Bool := (view.getProposal hash).any (·.canVote env)

def votablePaymentRequest : Bool := (view.getPaymentRequest hash).any (·.canVote env view)

def supportable : Bool :=
  (view.getConsultation hash).any (·.canBeSupported env) ||
    (view.getConsultationAnswer hash).any (·.canBeSupported env view)

def votableConsultation (vote : Int) : Bool :=
  (view.getConsultation hash).any fun c => c.canBeVoted env vote && c.isValidVote vote

def votableAnswer : Bool := (view.getConsultationAnswer hash).any (·.canBeVoted env view)

end Votable

/-! ### Votes in outputs -/

/-- The vote in an output, if it is a vote; the outer `none` is an exception or a failure to
extract it. -/
def outputVote (out : CTxOut) : Option (Option (UInt256 × Int)) :=
  if out.isVote then (CScript.extractVote out.scriptPubKey).map some
  else if out.isSupportVote then (CScript.extractSupportVote out.scriptPubKey).map some
  else if out.isConsultationVote then
    (CScript.extractConsultationVote out.scriptPubKey).bind fun v => v.map some
  else some none

/-- `ModifyVote(voter)->Set(height, hash, vote)`. -/
def CStateView.setVote (view : CStateView) (voter : List UInt8) (height : Nat) (hash : UInt256)
    (vote : Int) : CStateView :=
  view.setCachedVoter voter ((view.votes[voter]?.getD ⟨∅⟩).set height hash vote)

/-- `mapCountAnswers` after one more vote for an answer of `parent`, and whether the vote is
within the consultation's `nMax`. -/
def countAnswer (view : CStateView) (counts : Map UInt256 Int) (parent : UInt256) :
    Map UInt256 Int × Bool :=
  let count := counts[parent]?.getD 0 + 1
  let nMax := ((view.getConsultation parent).map fun c => toI32 c.nMax).getD 0
  (counts.insert parent count, decide (count ≤ nMax))

/-- A consultation vote recorded for the block, as `ConnectBlock` does it for the coinbase's
votes and for the staker's cached ones. -/
def recordConsultationVote (env : Env) (block : UInt256) (view : CStateView) (hash : UInt256)
    (vote : Int) (st : RecordedVotes × Map UInt256 Int) : RecordedVotes × Map UInt256 Int :=
  if votableConsultation env view hash vote then
    (st.1.insertConsultationVote block hash vote, st.2)
  else match view.getConsultationAnswer hash with
    | none => st
    | some answer =>
      if answer.canBeVoted env view then
        let (counts, fWithin) := countAnswer view st.2 answer.parent
        (if fWithin then st.1.insertConsultationVote block hash vote else st.1, counts)
      else st

/-- One output of a voting transaction; `i` is the transaction's position.  With the vote
cache the vote goes to the voter's list, otherwise the coinbase's votes go to the block. -/
def takeVote (ctx : ConnectContext) (i : Nat) (voterScript : List UInt8)
    (st : ConnectState × Map UInt256 Int) (out : CTxOut) :
    Outcome (ConnectState × Map UInt256 Int) := do
  match ← st.1.require (outputVote out) with
  | none => return st
  | some (hash, vote) =>
    let (s, counts) := st
    let env := ctx.node.toEnv
    let key := (voterScript, hash)
    if s.votes.contains key then return st
    else
      let votes := if vote == VOTE_REMOVE then s.votes else s.votes.insert key vote
      if ctx.fVoteCacheState && !voterScript.isEmpty then
        let fConsultation := ctx.fDAOConsultations && out.isConsultationVote
        let fAdmitted := if fConsultation then
            votableConsultation env s.view hash vote ||
              (s.view.consultations.contains hash && vote == VOTE_REMOVE) ||
              votableAnswer env s.view hash
          else
            (ctx.fCFund && ((out.isProposalVote && votableProposal env s.view hash) ||
              (out.isPaymentRequestVote && votablePaymentRequest env s.view hash))) ||
            (ctx.fDAOConsultations && out.isSupportVote && supportable env s.view hash)
        if fAdmitted then
          let votes := if fConsultation then votes else votes.insert key vote
          let view := s.view.setVote voterScript ctx.pindex.nHeight hash vote
          return ({ s with votes := votes, view := view }, counts)
        else return ({ s with votes := votes }, counts)
      else if i == 0 then
        let block := ctx.block.hash
        if ctx.fCFund && out.isProposalVote && votableProposal env s.view hash then
          return ({ s with votes, recorded := s.recorded.pushProposalVote block hash vote }, counts)
        else if ctx.fCFund && out.isPaymentRequestVote && votablePaymentRequest env s.view hash then
          return ({ s with votes, recorded := s.recorded.pushPaymentRequestVote block hash vote },
            counts)
        else if ctx.fDAOConsultations && out.isSupportVote && supportable env s.view hash then
          return ({ s with votes, recorded := s.recorded.insertSupport block hash }, counts)
        else if ctx.fDAOConsultations && out.isConsultationVote && vote != VOTE_REMOVE then
          let r := recordConsultationVote env block s.view hash vote (s.recorded, counts)
          return ({ s with votes, recorded := r.1 }, r.2)
        else return ({ s with votes }, counts)
      else return ({ s with votes }, counts)

/-- The script whose key votes: the staker's, or for a light wallet's vote that of its first
input, read from the node's store or from the block itself. -/
def voterScriptOf (ctx : ConnectContext) (tx : CTransaction) (fDaoTx : Bool) :
    Option (List UInt8) :=
  if !fDaoTx then some ctx.stakerScript
  else do
    let txin ← tx.vin.head?
    let txPrev ← (ctx.node.getTransaction txin.prevout.hash).or
      (ctx.block.vtx.find? fun t => t.hash == txin.prevout.hash)
    let out ← txPrev.vout[txin.prevout.n]?
    return CScript.getStakerScript out.scriptPubKey

/-- The votes a transaction carries; blocks of excluded stakers carry none. -/
def takeVotes (ctx : ConnectContext) (i : Nat) (tx : CTransaction) (st : ConnectState) :
    Outcome ConnectState :=
  let fDaoTx := isValidDaoTxVote ctx.node.toEnv st.view tx && ctx.fVoteCacheState &&
    ctx.fColdStakingv2
  if (ctx.fCFund || ctx.fDAOConsultations) && !ctx.pindex.excluded &&
      ((tx.isCoinBase && !ctx.fStakerIsColdStakingv2) || (ctx.fStake && fDaoTx && decide (1 < i)) ||
        (!ctx.fStake && fDaoTx && decide (0 < i))) then do
    let voterScript ← st.require (voterScriptOf ctx tx fDaoTx)
    let (st, _) ← tx.vout.foldlM (takeVote ctx i voterScript) (st, ∅)
    return st
  else .ok st

/-! ### Governance transactions -/

/-- A block is rejected for an invalid governance transaction, unless its staker is excluded. -/
def checkDaoTx (ctx : ConnectContext) (tx : CTransaction) (st : ConnectState) :
    Outcome ConnectState :=
  if (ctx.fCFund || ctx.fDAOConsultations) && !ctx.pindex.excluded then
    if ctx.fCFund && tx.nVersion == CTransaction.PROPOSAL_VERSION then
      st.ensure (isValidProposal ctx.node st.view tx ctx.mask.nProposalMask == some true)
    else if ctx.fCFund && tx.nVersion == CTransaction.PAYMENT_REQUEST_VERSION then
      st.ensure (isValidPaymentRequest ctx.node st.view tx ctx.mask.nPaymentRequestMask == some true)
    else if ctx.fDAOConsultations && tx.nVersion == CTransaction.CONSULTATION_VERSION then
      st.ensure (isValidConsultation ctx.node ctx.pprev st.view tx ctx.mask.nConsultationMask)
    else if ctx.fDAOConsultations && tx.nVersion == CTransaction.ANSWER_VERSION then
      st.ensure (isValidConsultationAnswer ctx.node ctx.pprev st.view tx)
    else .ok st
  else .ok st

/-- The new consultation and, unless it is a range, its first answers. -/
def CStateView.addConsultationWithAnswers (view : CStateView) (c : CConsultation)
    (answers : List CConsultationAnswer) : CStateView :=
  if view.consultations.contains c.hash then view
  else
    let view := view.addConsultation c
    if c.isRange then view else answers.foldl CStateView.addConsultationAnswer view

/-- The object a governance transaction creates; `none` is an exception or a failed conversion. -/
def createObject (ctx : ConnectContext) (tx : CTransaction) (nProposalFee : Int)
    (view : CStateView) : Option CStateView :=
  let blockhash := ctx.block.hash
  if ctx.fCFund && tx.nVersion == CTransaction.PROPOSAL_VERSION then do
    if ← isValidProposal ctx.node view tx ctx.mask.nProposalMask then
      let proposal ← txToProposal ctx.node tx blockhash nProposalFee
      return view.addProposal proposal
    else return view
  else if ctx.fCFund && tx.nVersion == CTransaction.PAYMENT_REQUEST_VERSION then do
    if ← isValidPaymentRequest ctx.node view tx ctx.mask.nPaymentRequestMask then
      let prequest ← txToPaymentRequest ctx.node tx blockhash
      if (view.getProposal prequest.proposalhash).any
          (·.getLastState ctx.node.mapBlockIndex == .accepted) then
        return view.addPaymentRequest prequest
      else return view
    else return view
  else if ctx.fDAOConsultations && tx.nVersion == CTransaction.CONSULTATION_VERSION then
    if isValidConsultation ctx.node ctx.pprev view tx ctx.mask.nConsultationMask then do
      let (consultation, answers) ← txToConsultation ctx.node ctx.pprev tx blockhash
      return view.addConsultationWithAnswers consultation answers
    else some view
  else if ctx.fDAOConsultations && tx.nVersion == CTransaction.ANSWER_VERSION then
    if isValidConsultationAnswer ctx.node ctx.pprev view tx then do
      let answer ← txToConsultationAnswer ctx.node tx blockhash
      if (view.getConsultation answer.parent).any (·.canHaveNewAnswers ctx.node.toEnv) &&
          !view.answers.contains answer.hash then
        return view.addConsultationAnswer answer
      else return view
    else some view
  else some view

/-! ### Values -/

/-- The fund's share of a coinstake: the last output must pay it, and it does not count as
stake reward. -/
def checkCoinStake (ctx : ConnectContext) (tx : CTransaction) (st : ConnectState) :
    Outcome ConnectState :=
  let env := ctx.node.toEnv
  let nStakeReward := tx.getValueOut - st.view.getValueIn tx
  if isCommunityFundAccumulationEnabled env ctx.pprev then
    let nMultiplier := contributionMultiplier env ctx.pprev st.view ctx.pindex.nHeight
    let nDue := contributionDue env ctx.pprev st.view * nMultiplier
    let fPaid := (tx.vout.getLast?).any fun out =>
      out.isCommunityFundContribution && out.nValue == nDue
    -- a spread of 0 would be a division by zero
    let fDivides := !env.isActive .communityFundAccumulationSpread ctx.pprev ||
      getConsensusParameter env st.view .fundSpreadAccumulation != 0
    ConnectState.ensure { st with nStakeReward := nStakeReward - nDue }
      (fDivides && (fPaid || decide (nMultiplier ≤ 0)))
  else .ok { st with nStakeReward := nStakeReward }

/-- A coinstake earns a reward; any other transaction pays a fee. -/
def feeOrReward (ctx : ConnectContext) (tx : CTransaction) (st : ConnectState) :
    Outcome ConnectState :=
  if tx.isCoinStake then checkCoinStake ctx tx st
  else .ok { st with nFees := st.nFees + (st.view.getValueIn tx - tx.getValueOut) }

/-- Inputs, fees and the coinstake's reward. -/
def checkValues (ctx : ConnectContext) (tx : CTransaction) (st : ConnectState) :
    Outcome ConnectState :=
  if tx.isCoinBase then
    st.ensure (!(decide (tx.nTime < ctx.block.nTime) &&
      decide (ctx.node.params.nCoinbaseTimeActivationHeight < ctx.pindex.nHeight)))
  else do
    let st ← st.ensure (st.view.haveInputs tx)
    let st ← feeOrReward ctx tx st
    st.ensure (checkTxInputs ctx.node.params ctx.node.fTestnet st.view ctx.pindex.nHeight tx)

/-- The fund contributions of a transaction go to `nCFSupply`. -/
def Fund.contribute (fund : Fund) (tx : CTransaction) : Fund :=
  { fund with nCFSupply := fund.nCFSupply + tx.getValueOutCFund }

/-- One turn of the loop over the transactions. -/
def connectTx (ctx : ConnectContext) (st : ConnectState) (it : CTransaction × Nat) :
    Outcome ConnectState := do
  let (tx, i) := it
  let st ← takeVotes ctx i tx st
  let st ← checkDaoTx ctx tx st
  let st ← st.ensure (ctx.node.checkInputsRest ctx.pprev st.view tx)
  let st ← checkValues ctx tx st
  let view ← st.require (createObject ctx tx tx.getValueOutCFund st.view)
  let (view, undo) ← st.require (updateCoins view tx ctx.pindex.nHeight)
  return { st with
    view := view
    fund := st.fund.contribute tx
    vtxundo := if i == 0 then st.vtxundo else st.vtxundo ++ [undo] }

/-! ## After the loop -/

/-- One entry of the staker's cached votes, recorded for the block. -/
def recordStakerVote (ctx : ConnectContext) (view : CStateView)
    (st : RecordedVotes × Map UInt256 Int) (hash : UInt256) (val : Int) :
    RecordedVotes × Map UInt256 Int :=
  let env := ctx.node.toEnv
  let block := ctx.block.hash
  if val == SUPPORT_REMOVE || val == VOTE_REMOVE then st
  else if ctx.fCFund && votableProposal env view hash then
    (st.1.pushProposalVote block hash val, st.2)
  else if ctx.fCFund && votablePaymentRequest env view hash then
    (st.1.pushPaymentRequestVote block hash val, st.2)
  else if val == SUPPORT then
    if ctx.fDAOConsultations && supportable env view hash then
      (st.1.insertSupport block hash, st.2)
    else st
  else if ctx.fDAOConsultations then recordConsultationVote env block view hash val st
  else st

/-- The staker's cached votes, recorded for the block. -/
def recordStakerVotes (ctx : ConnectContext) (view : CStateView) (recorded : RecordedVotes) :
    RecordedVotes :=
  if ctx.fStake && ctx.fVoteCacheState then
    match view.votes[ctx.stakerScript]? with
    | none => recorded
    | some list => (list.getList.foldl (recordStakerVote ctx view) (recorded, ∅)).1
  else recorded

/-- The state of the loop over the coinbase's outputs. -/
structure CoinbaseState where
  view : CStateView
  nAccValue : Int
  /-- the payment requests matched so far; their number is `nPaymentRequestsCount` -/
  matched : List CPaymentRequest

/-- The request hashes in the coinbase's `strDZeel`; `none` if it is no JSON array. -/
def coinbaseMetadata (node : Node) (strDZeel : String) : Option (List UniValue) :=
  match node.readJSON strDZeel with
  | some (.varr values) => some values
  | _ => none

/-- The payment request an output pays, if it matches the next entry of the list. -/
def matchPayout (node : Node) (pprev : Chain) (view : CStateView)
    (metadata : Option (List UniValue)) (nPaymentRequestsCount : Nat) (out : CTxOut) :
    Option (UInt256 × CPaymentRequest) := do
  let values ← metadata
  let str ← (← values[nPaymentRequestsCount]?).getStr
  let prid := uint256S str
  let prequest ← view.getPaymentRequest prid
  let proposal ← view.getProposal prequest.proposalhash
  let address ← node.extractAddress out.scriptPubKey
  let tip ← pprev.head?
  let fv452Fork := decide (node.params.nHeightv452Fork ≤ tip.nHeight)
  let accepted :=
    prequest.mapState.getLastStateBlockIndexForState node.mapBlockIndex .accepted
  let fMature := accepted.any fun pblockindex =>
    decide ((node.params.nCommunityFundMinAge : Int) < (tip.nHeight : Int) - pblockindex.nHeight)
  if out.nValue == prequest.nAmount &&
      (!fv452Fork || prequest.getLastState node.mapBlockIndex == .accepted) &&
      proposal.getPaymentAddress == address && (!fv452Fork || fMature) then
    some (prid, prequest)
  else none

/-- One turn of the loop over the coinbase's outputs: once the running total exceeds the
reward, an output with value must pay the next listed payment request. -/
def coinbaseStep (node : Node) (pindex : CBlockIndex) (pprev : Chain)
    (nPOWBlockReward : Int) (metadata : Option (List UniValue)) (st : CoinbaseState)
    (out : CTxOut) : Option CoinbaseState :=
  let nAccValue := st.nAccValue + out.nValue
  if nPOWBlockReward < nAccValue ∧ 0 < out.nValue then do
    let (prid, prequest) ← matchPayout node pprev st.view metadata st.matched.length out
    return {
      view := st.view.setPaymentRequest prid (prequest.setState pindex .paid)
      nAccValue := nAccValue
      matched := st.matched ++ [prequest] }
  else some { st with nAccValue := nAccValue }

/-- The coinbase payout loop. -/
def checkCoinbase (node : Node) (pindex : CBlockIndex) (pprev : Chain)
    (nPOWBlockReward : Int) (coinbase : CTransaction) (view : CStateView) :
    Option CoinbaseState :=
  coinbase.vout.foldlM
    (coinbaseStep node pindex pprev nPOWBlockReward (coinbaseMetadata node coinbase.strDZeel))
    ⟨view, 0, []⟩

/-- The most a coinbase may pay out without a payment request. -/
def nPOWBlockReward (block : CBlock) (nHeight : Nat) (nFees : Int) : Int :=
  if block.isProofOfWork then nFees + getBlockSubsidy nHeight else 0

/-- What a connected block leaves behind. -/
structure Connected where
  view : CStateView
  fund : Fund
  recorded : RecordedVotes
  vtxundo : List (List CTxInUndo)
  /-- the payment requests its coinbase matched -/
  matched : List CPaymentRequest

/-- The staker's key, from the output its coinstake spends first. -/
def stakerScriptOf (node : Node) (block : CBlock) : Option (List UInt8) :=
  if !block.isProofOfStake then some []
  else do
    let coinstake ← block.vtx[1]?
    let txin ← coinstake.vin.head?
    let txPrev ← node.getTransaction txin.prevout.hash
    let out ← txPrev.vout[txin.prevout.n]?
    return CScript.getStakerScript out.scriptPubKey

def connectContext (node : Node) (block : CBlock) (pindex : CBlockIndex) (pprev : Chain)
    (stakerScript : List UInt8) : ConnectContext where
  node := node
  block := block
  pindex := pindex
  pprev := pprev
  fStake := block.isProofOfStake
  fVoteCacheState := node.isActive .voteStateCache pprev
  fCFund := node.isActive .communityFund pprev
  fDAOConsultations := node.isActive .consultations pprev
  fColdStakingv2 := node.isActive .coldStakingV2 pprev
  fStakerIsColdStakingv2 := block.isProofOfStake &&
    ((block.vtx[1]?).bind (·.vout[1]?)).any fun out => CScript.isColdStakingv2 out.scriptPubKey
  stakerScript := stakerScript
  mask := getVersionMask node.toEnv pprev

/-- `fEnforceBIP30`: only for a block whose hash is not known, and not on top of the block that
the parameters name. -/
def fEnforceBIP30 (params : Params) (phashBlock : Option UInt256) (pprev : Chain) : Bool :=
  phashBlock.isNone &&
    !(pprev.getAncestor params.BIP34Height).any fun pindex =>
      pindex.phashBlock == params.BIP34Hash

/-- Some transaction of the block has an identifier under which there are unspent outputs. -/
def overwritesCoins (view : CStateView) (block : CBlock) : Bool :=
  block.vtx.any fun tx => view.coins.contains tx.hash

/-- `ConnectBlock` on the view of the previous block, `pprev` being the active chain. -/
def connectBlock (node : Node) (block : CBlock) (pindex : CBlockIndex) (pprev : Chain)
    (fund : Fund) (recorded : RecordedVotes) (view : CStateView) : Outcome Connected := do
  let init : ConnectState := ⟨view, fund, recorded, ∅, 0, 0, []⟩
  let init ← init.ensure (checkBlock node block)
  if block.hash == node.params.genesis.hash then return ⟨view, fund, recorded, [], []⟩
  else
    let init ← init.ensure (node.checkProof pprev view block &&
      (!block.isProofOfStake || (block.vtx[1]?).any (checkProofOfStake node pprev view)))
    let init ← init.ensure (!(fEnforceBIP30 node.params (some pindex.phashBlock) pprev &&
      overwritesCoins view block))
    let nCoinAge ← init.require (if block.isProofOfStake then
      (block.vtx[1]?).bind (node.getCoinAge view) else some 0)
    let stakerScript ← init.require (stakerScriptOf node block)
    let ctx := connectContext node block pindex pprev stakerScript
    let st ← block.vtx.zipIdx.foldlM (connectTx ctx) init
    let recorded := recordStakerVotes ctx st.view st.recorded
    let st := { st with recorded := recorded }
    let coinbase ← st.require block.vtx.head?
    let cb ← st.require (checkCoinbase node pindex pprev
      (nPOWBlockReward block pindex.nHeight st.nFees) coinbase st.view)
    let st ← st.ensure (!block.isProofOfStake || decide (st.nStakeReward ≤
      getProofOfStakeReward node.toEnv pindex.nHeight nCoinAge st.nFees pprev cb.view))
    return ⟨cb.view, st.fund, recorded, st.vtxundo, cb.matched⟩

end Electrum
