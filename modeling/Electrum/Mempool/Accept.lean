import Electrum.Mempool.TxMemPool
import Electrum.Validation.Transaction

/-!
# Accepting a transaction into the pool

`AcceptToMemoryPoolWorker`, in the order of its checks and with the texts of its rejections.  The
governance object of a transaction enters the pool's maps in the middle of the checks, not with the
transaction: a rejection after that point returns a pool that has changed.
-/

namespace Electrum

/-- Why a transaction is not accepted. -/
inductive Rejection where
  /-- `state.DoS` or `state.Invalid` with this text -/
  | reason (text : String)
  /-- the failed check, `CheckTransaction` or `CheckInputs`, has filled in the state -/
  | stateFilled
  /-- `fMissingInputs`, with no text -/
  | missingInputs
  /-- reading the metadata threw -/
  | exception
  deriving DecidableEq, Repr

/-- Continue only if a check passes. -/
def passes (check : Bool) (text : String) : Except Rejection Unit :=
  if check then .ok () else .error (.reason text)

/-- Continue with a value, unless an exception took its place. -/
def unlessThrown {α : Type} : Option α → Except Rejection α
  | some a => .ok a
  | none => .error .exception

/-- `CFeeRate(nFeePaid, nSize)`, per thousand bytes. -/
def feeRate (nFeePaid nSize : Int) : Int :=
  if 0 < nSize then (nFeePaid * 1000).tdiv nSize else 0

def MAX_STANDARD_TX_SIGOPS_COST : Int := 80000 / 5

/-- The height that the view of the pool gives to unconfirmed coins. -/
def MEMPOOL_HEIGHT : Nat := 0x7FFFFFFF

/-- What the function reads beside the pool and the transaction, and the checks that are not
modelled. -/
structure AcceptEnv where
  node : Node
  chainActive : Chain
  /-- `pcoinsTip` -/
  view : CStateView
  /-- `GetSpendHeight` -/
  nSpendHeight : Nat
  /-- `GetTime()` -/
  time : Int
  /-- what `nProposalFee` holds before the loop that adds to it: it is not initialised -/
  nProposalFee : Int
  /-- premature witness, `IsStandardTx` and `CheckFinalTx`: the text of the first that fails -/
  checkStandard : CTransaction → Option String
  /-- replacement is enabled and an input of the transaction opts in -/
  isReplaceable : CTransaction → Bool
  /-- `IsColdStakingEnabled` at the tip -/
  fColdStaking : Bool
  checkSequenceLocks : CTxMemPool → CTransaction → Bool
  areInputsStandard : CStateView → CTransaction → Bool
  getTransactionSigOpCost : CStateView → CTransaction → Int
  /-- `GetTxSize` -/
  txSize : CTransaction → Int → Int
  /-- `pool.GetMinFee(...).GetFee(nSize)` -/
  mempoolRejectFee : CTxMemPool → Int → Int
  /-- `-relaypriority` is on and `AllowFree` fails -/
  lacksPriority : CTransaction → Bool
  /-- `::minRelayTxFee.GetFee(nSize)` -/
  minRelayFee : Int → Int
  /-- the free relay of the last minutes is used up -/
  isRateLimited : Int → Bool
  limits : PackageLimits
  /-- the scripts, under the standard and under the mandatory flags -/
  checkScripts : CStateView → CTransaction → Bool
  eviction : Eviction
  /-- `-maxmempool` in bytes -/
  maxMempool : Nat
  /-- `-mempoolexpiry` in seconds -/
  mempoolExpiry : Int

namespace AcceptEnv

variable (env : AcceptEnv) (pool : CTxMemPool) (tx : CTransaction)

/-- A deployment at the tip. -/
def isActive (pos : DeploymentPos) : Bool := env.node.isActive pos env.chainActive

/-- `CStateViewMemPool`: coins of the pool's transactions come before those of the chain, governance
objects of the chain before those of the pool. -/
def viewMemPool : CStateView :=
  let view := pool.mapTx.toList.foldl
    (fun view it => view.setCoins it.1 (.fromTx it.2.tx MEMPOOL_HEIGHT)) env.view
  { view with
    proposals := Map.pour (fun base p => base.or (some p)) view.proposals pool.mapProposal
    paymentRequests :=
      Map.pour (fun base r => base.or (some r)) view.paymentRequests pool.mapPaymentRequest
    consultations :=
      Map.pour (fun base c => base.or (some c)) view.consultations pool.mapConsultation
    answers := Map.pour (fun base a => base.or (some a)) view.answers pool.mapAnswer }

/-! ## The checks before the objects -/

/-- The checks that do not look at the pool. -/
def checkLoose : Except Rejection Unit := do
  if !checkTransaction tx then throw .stateFilled
  let fCFund := env.isActive .communityFund
  passes (!(fCFund && tx.nVersion < CTransaction.TXDZEEL_VERSION_V2)) "old-version"
  passes (fCFund || !(tx.nVersion == CTransaction.PROPOSAL_VERSION ||
    tx.nVersion == CTransaction.PAYMENT_REQUEST_VERSION)) "too-early-cfund"
  passes (env.isActive .consultations || !(tx.nVersion == CTransaction.CONSULTATION_VERSION ||
    tx.nVersion == CTransaction.ANSWER_VERSION)) "too-early-consultation"
  passes (env.isActive .coldStakingV2 || !(tx.nVersion == CTransaction.VOTE_VERSION))
    "too-early-dao-vote-tx"
  passes (!tx.isCoinBase) "coinbase"
  passes (!tx.isCoinStake) "coinstake"
  match env.checkStandard tx with
  | some text => throw (.reason text)
  | none => return ()

/-- The pool's transactions that spend the same outputs, each of which must be replaceable. -/
def findConflicts : List CTxIn → Finset UInt256 → Except Rejection (Finset UInt256)
  | [], setConflicts => .ok setConflicts
  | txin :: rest, setConflicts =>
    match pool.mapNextTx[txin.prevout.key]? with
    | none => findConflicts rest setConflicts
    | some txConflicting =>
      if txConflicting.hash ∈ setConflicts then findConflicts rest setConflicts
      else if env.isReplaceable txConflicting then
        findConflicts rest (insert txConflicting.hash setConflicts)
      else .error (.reason "txn-mempool-conflict")

/-- The governance checks against the view of chain and pool. -/
def checkGovernance : Except Rejection Unit := do
  let view := env.viewMemPool pool
  let fCFund := env.isActive .communityFund
  let fDAOConsultations := env.isActive .consultations
  let mask := getVersionMask env.node.toEnv env.chainActive
  if fCFund && tx.nVersion == CTransaction.PROPOSAL_VERSION then
    passes (← unlessThrown (isValidProposal env.node view tx mask.nProposalMask))
      "bad-cfund-proposal"
  if fCFund && tx.nVersion == CTransaction.PAYMENT_REQUEST_VERSION then
    passes (← unlessThrown (isValidPaymentRequest env.node view tx mask.nPaymentRequestMask))
      "bad-cfund-payment-request"
  if fDAOConsultations && tx.nVersion == CTransaction.CONSULTATION_VERSION then
    passes (isValidConsultation env.node env.chainActive view tx mask.nConsultationMask)
      "bad-dao-consultation"
  if fDAOConsultations && tx.nVersion == CTransaction.ANSWER_VERSION then
    passes (isValidConsultationAnswer env.node env.chainActive view tx)
      "bad-dao-consultation-answer"
  if env.isActive .coldStakingV2 && tx.nVersion == CTransaction.VOTE_VERSION then
    passes (isValidDaoTxVote env.node.toEnv view tx) "bad-dao-tx-vote"

/-- The inputs exist and are unspent, and the outputs are of a kind that is active. -/
def checkCoins : Except Rejection Unit := do
  let view := env.viewMemPool pool
  passes (!view.coins.contains tx.hash) "txn-already-known"
  if !tx.vin.all (fun txin => view.coins.contains txin.prevout.hash) then throw .missingInputs
  passes (view.haveInputs tx) "bad-txns-inputs-spent"
  passes (env.fColdStaking || !tx.vout.any fun out => CScript.isColdStaking out.scriptPubKey)
    "cold-staking-not-enabled"
  passes (env.isActive .coldStakingV2 ||
    !tx.vout.any fun out => CScript.isColdStakingv2 out.scriptPubKey) "cold-staking-v2-not-enabled"

/-- Every check before the objects are entered; the result is `setConflicts`. -/
def checkEntry : Except Rejection (Finset UInt256) := do
  env.checkLoose tx
  passes (!pool.has tx.hash) "txn-already-in-mempool"
  let setConflicts ← env.findConflicts pool tx.vin ∅
  env.checkGovernance pool tx
  env.checkCoins pool tx
  return setConflicts

/-! ## The objects -/

/-- `nProposalFee` after its loop. -/
def proposalFee : Int :=
  env.nProposalFee + ((tx.vout.filter (·.isCommunityFundContribution)).map (·.nValue)).sum

/-- `AddConsultation`, with the first answers of a consultation that is not a range. -/
def enterConsultation (c : CConsultation) (vAnswers : List CConsultationAnswer) : CTxMemPool :=
  { pool with
    mapConsultation := pool.mapConsultation.insertIfNew c.hash c
    mapAnswer := if c.isRange then pool.mapAnswer
      else vAnswers.foldl (fun mapAnswer a => mapAnswer.insertIfNew a.hash a) pool.mapAnswer }

/-- The object that the transaction creates goes into the pool's maps. -/
def enterObjects : Except Rejection CTxMemPool :=
  let view := env.viewMemPool pool
  let fCFund := env.isActive .communityFund
  let fDAOConsultations := env.isActive .consultations
  let mask := getVersionMask env.node.toEnv env.chainActive
  if fCFund && tx.nVersion == CTransaction.PROPOSAL_VERSION then do
    if ← unlessThrown (isValidProposal env.node view tx mask.nProposalMask) then
      match txToProposal env.node tx 0 (env.proposalFee tx) with
      | some p => return { pool with mapProposal := pool.mapProposal.insertIfNew p.hash p }
      | none => throw (.reason "invalid proposal")
    else return pool
  else if fCFund && tx.nVersion == CTransaction.PAYMENT_REQUEST_VERSION then do
    if ← unlessThrown (isValidPaymentRequest env.node view tx mask.nPaymentRequestMask) then
      match txToPaymentRequest env.node tx 0 with
      | some r =>
        if (view.getProposal r.proposalhash).any
            (·.getLastState env.node.mapBlockIndex == .accepted) then
          return { pool with mapPaymentRequest := pool.mapPaymentRequest.insertIfNew r.hash r }
        else throw (.reason "invalid payment request (parent not accepted)")
      | none => throw (.reason "invalid payment request")
    else return pool
  else if fDAOConsultations && tx.nVersion == CTransaction.CONSULTATION_VERSION then
    if isValidConsultation env.node env.chainActive view tx mask.nConsultationMask then
      match txToConsultation env.node env.chainActive tx 0 with
      | some (c, vAnswers) => return enterConsultation pool c vAnswers
      | none => throw (.reason "invalid dao consultation")
    else return pool
  else if fDAOConsultations && tx.nVersion == CTransaction.ANSWER_VERSION then
    if isValidConsultationAnswer env.node env.chainActive view tx then
      match txToConsultationAnswer env.node tx 0 with
      | some a =>
        -- an answer that cannot be added is no reason to reject
        if (view.getConsultation a.parent).any (·.canHaveNewAnswers env.node.toEnv) &&
            !view.answers.contains a.hash then
          return { pool with mapAnswer := pool.mapAnswer.insertIfNew a.hash a }
        else return pool
      | none => throw (.reason "invalid dao consultation answer")
    else return pool
  else return pool

/-! ## The checks after the objects -/

/-- The entry that would be added. -/
def newEntry : CTxMemPoolEntry :=
  let view := env.viewMemPool pool
  let nFees := if tx.isCoinStake then 0 else view.getValueIn tx - tx.getValueOut
  let nSigOpsCost := env.getTransactionSigOpCost view tx
  .new tx nFees env.time (env.txSize tx nSigOpsCost) nSigOpsCost

/-- The fee with the pool's delta for the transaction. -/
def modifiedFees : Int := (env.newEntry pool tx).nFee + (pool.mapDeltas[tx.hash]?).getD 0

/-- Standard inputs, signature operations and fees. -/
def checkFees (fLimitFree : Bool) (nAbsurdFee : Int) : Except Rejection Unit := do
  let entry := env.newEntry pool tx
  let nModifiedFees := env.modifiedFees pool tx
  passes (env.checkSequenceLocks pool tx) "non-BIP68-final"
  passes (env.areInputsStandard (env.viewMemPool pool) tx) "bad-txns-nonstandard-inputs"
  passes (entry.sigOpCost ≤ MAX_STANDARD_TX_SIGOPS_COST) "bad-txns-too-many-sigops"
  let mempoolRejectFee := env.mempoolRejectFee pool entry.nTxSize
  passes (!(decide (0 < mempoolRejectFee) && decide (nModifiedFees < mempoolRejectFee)))
    "mempool min fee not met"
  let fFree := decide (nModifiedFees < env.minRelayFee entry.nTxSize)
  passes (!(fFree && env.lacksPriority tx)) "insufficient priority"
  passes (!(fLimitFree && fFree && env.isRateLimited entry.nTxSize)) "rate limited free transaction"
  passes (!(nAbsurdFee != 0 && decide (nAbsurdFee < entry.nFee))) "absurdly-high-fee"

/-- One transaction that would be replaced: the entries found, the parents of their inputs and
their descendants so far. -/
def checkConflicting (newFeeRate : Int) (st : Finset UInt256 × Finset UInt256 × Int)
    (hashConflicting : UInt256) : Except Rejection (Finset UInt256 × Finset UInt256 × Int) :=
  match pool.mapTx[hashConflicting]? with
  | none => .ok st
  | some entry =>
    if newFeeRate ≤ feeRate entry.getModifiedFee entry.nTxSize then
      .error (.reason "insufficient fee")
    else .ok (insert hashConflicting st.1, st.2.1 ∪ (entry.tx.vin.map (·.prevout.hash)).toFinset,
      st.2.2 + entry.nCountWithDescendants)

/-- The conditions on a replacement; the result is `allConflicting`. -/
def checkReplacement (setConflicts : Finset UInt256) : Except Rejection (Finset UInt256) := do
  if setConflicts = ∅ then return ∅
  let nSize := (env.newEntry pool tx).nTxSize
  let nModifiedFees := env.modifiedFees pool tx
  let (setIterConflicting, setConflictsParents, nConflictingCount) ←
    (inOrder setConflicts).foldlM (checkConflicting pool (feeRate nModifiedFees nSize)) (∅, ∅, 0)
  passes (nConflictingCount ≤ 100) "too many potential replacements"
  let allConflicting := pool.calculateAllDescendants setIterConflicting
  let nConflictingFees := ∑ it ∈ allConflicting, pool.valueAt it (·.getModifiedFee)
  passes (tx.vin.all fun txin =>
    decide (txin.prevout.hash ∈ setConflictsParents) || !pool.has txin.prevout.hash)
    "replacement-adds-unconfirmed"
  passes (nConflictingFees ≤ nModifiedFees) "insufficient fee"
  passes (env.minRelayFee nSize ≤ nModifiedFees - nConflictingFees) "insufficient fee"
  return allConflicting

/-- Every check after the objects are entered; the result is `setAncestors` and
`allConflicting`. -/
def checkPolicy (fLimitFree : Bool) (nAbsurdFee : Int) (setConflicts : Finset UInt256) :
    Except Rejection (Finset UInt256 × Finset UInt256) := do
  env.checkFees pool tx fLimitFree nAbsurdFee
  let setAncestors ←
    match pool.calculateMemPoolAncestors (env.newEntry pool tx) env.limits true with
    | .ok setAncestors => pure setAncestors
    | .error _ => throw (.reason "too-long-mempool-chain")
  passes (decide (Disjoint setAncestors setConflicts)) "bad-txns-spends-conflicting-tx"
  let allConflicting ← env.checkReplacement pool tx setConflicts
  let view := env.viewMemPool pool
  if !(checkTxInputs env.node.params env.node.fTestnet view env.nSpendHeight tx &&
      env.checkScripts view tx) then throw .stateFilled
  return (setAncestors, allConflicting)

/-! ## The function -/

/-- What enters and leaves the pool once every check has passed. -/
def replaceAndAdd (setAncestors allConflicting : Finset UInt256) : CTxMemPool :=
  (pool.removeStaged allConflicting false).addUnchecked (env.newEntry pool tx) setAncestors

/-- The pool after `LimitMempoolSize`. -/
def limited : CTxMemPool :=
  pool.limitMempoolSize env.eviction env.maxMempool (env.time - env.mempoolExpiry)

/-- `AcceptToMemoryPoolWorker`: the pool afterwards, and why the transaction was rejected, if it
was. -/
def acceptToMemoryPool (fLimitFree fOverrideMempoolLimit : Bool) (nAbsurdFee : Int) :
    CTxMemPool × Option Rejection :=
  match env.checkEntry pool tx with
  | .error why => (pool, some why)
  | .ok setConflicts =>
    match env.enterObjects pool tx with
    | .error why => (pool, some why)
    | .ok pool =>
      match env.checkPolicy pool tx fLimitFree nAbsurdFee setConflicts with
      | .error why => (pool, some why)
      | .ok (setAncestors, allConflicting) =>
        let pool := env.replaceAndAdd pool tx setAncestors allConflicting
        if fOverrideMempoolLimit then (pool, none)
        else
          let pool := env.limited pool
          (pool, if pool.has tx.hash then none else some (.reason "mempool full"))

/-- An environment in which every check outside the model passes and no fee is asked for. -/
def lenient (node : Node) (view : CStateView) : AcceptEnv where
  node := node
  chainActive := []
  view := view
  nSpendHeight := 1
  time := 0
  nProposalFee := 0
  checkStandard _ := none
  isReplaceable _ := true
  fColdStaking := true
  checkSequenceLocks _ _ := true
  areInputsStandard _ _ := true
  getTransactionSigOpCost _ _ := 4
  txSize _ _ := 200
  mempoolRejectFee _ _ := 0
  lacksPriority _ := false
  minRelayFee _ := 0
  isRateLimited _ := false
  limits := nNoLimit
  checkScripts _ _ := true
  eviction := ⟨fun pool => 1000 * pool.mapTx.size, fun _ => 0⟩
  maxMempool := 300000000
  mempoolExpiry := 1209600

end AcceptEnv

end Electrum
