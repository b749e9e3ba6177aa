import Electrum.Primitives.Block

/-!
# Consensus parameters

The parameters the network fixes (`Consensus::Params`) and the positions of those it can
vote on (`Consensus::ConsensusParamsPos`).
-/

namespace Electrum

inductive ConsensusParamType
  | typeNumber
  | typePercent
  | type0AE
  | typeBool
  deriving DecidableEq, Repr

/-- The parameters that consultations can change, in the order of the source. -/
inductive ConsensusParamsPos
  | votingCycleLength
  | consultationMinSupport
  | consultationAnswerMinSupport
  | consultationMinCycles
  | consultationMaxVotingCycles
  | consultationMaxSupportCycles
  | consultationReflectionLength
  | consultationMinFee
  | consultationAnswerMinFee
  | proposalMinQuorum
  | proposalMinAccept
  | proposalMinReject
  | proposalMinFee
  | proposalMaxVotingCycles
  | paymentRequestMinQuorum
  | paymentRequestMinAccept
  | paymentRequestMinReject
  | paymentRequestMinFee
  | paymentRequestMaxVotingCycles
  | fundSpreadAccumulation
  | fundPercentPerBlock
  | generationPerBlock
  | fee0AENS
  | daoVoteLightMinFee
  deriving DecidableEq, Repr

namespace ConsensusParamsPos

/-- Every position, in order. -/
def all : List ConsensusParamsPos :=
  [votingCycleLength, consultationMinSupport, consultationAnswerMinSupport,
    consultationMinCycles, consultationMaxVotingCycles, consultationMaxSupportCycles,
    consultationReflectionLength, consultationMinFee, consultationAnswerMinFee,
    proposalMinQuorum, proposalMinAccept, proposalMinReject, proposalMinFee,
    proposalMaxVotingCycles, paymentRequestMinQuorum, paymentRequestMinAccept,
    paymentRequestMinReject, paymentRequestMinFee, paymentRequestMaxVotingCycles,
    fundSpreadAccumulation, fundPercentPerBlock, generationPerBlock, fee0AENS,
    daoVoteLightMinFee]

/-- The enumerator's value. -/
def idx (pos : ConsensusParamsPos) : Nat := pos.ctorIdx

/-- The cast `(Consensus::ConsensusParamsPos)n`, for `n < MAX_CONSENSUS_PARAMS`. -/
def ofIdx (n : Nat) : Option ConsensusParamsPos := all[n]?

/-- `vConsensusParamsType`. -/
def type : ConsensusParamsPos → ConsensusParamType
  | votingCycleLength => .typeNumber
  | consultationMinSupport | consultationAnswerMinSupport => .typePercent
  | consultationMinCycles | consultationMaxVotingCycles | consultationMaxSupportCycles
  | consultationReflectionLength => .typeNumber
  | consultationMinFee | consultationAnswerMinFee => .type0AE
  | proposalMinQuorum | proposalMinAccept | proposalMinReject => .typePercent
  | proposalMinFee => .type0AE
  | proposalMaxVotingCycles => .typeNumber
  | paymentRequestMinQuorum | paymentRequestMinAccept | paymentRequestMinReject => .typePercent
  | paymentRequestMinFee => .type0AE
  | paymentRequestMaxVotingCycles => .typeNumber
  | fundSpreadAccumulation => .typeNumber
  | fundPercentPerBlock => .typePercent
  | generationPerBlock | fee0AENS | daoVoteLightMinFee => .type0AE

theorem mem_all (pos : ConsensusParamsPos) : pos ∈ all := by
  cases pos <;> decide

theorem ofIdx_idx (pos : ConsensusParamsPos) : ofIdx pos.idx = some pos := by
  cases pos <;> rfl

end ConsensusParamsPos

def MAX_CONSENSUS_PARAMS : Nat := ConsensusParamsPos.all.length

/-- The deployments, in the order of the source. -/
inductive DeploymentPos
  | testDummy
  | csv
  | segwit
  | csvLegacy
  | segwitLegacy
  | communityFund
  | communityFundAccumulation
  | coldStaking
  | communityFundAccumulationSpread
  | communityFundAmountV2
  | ntpSync
  | staticReward
  | quorumCFund
  | voteStateCache
  | consultations
  | daoConsensus
  | coldStakingV2
  | poolFee
  | exclude
  deriving DecidableEq, Repr

/-- The part of `Consensus::Params` the modelled code reads. -/
structure Params where
  /-- the genesis block; `hashGenesisBlock` is its hash -/
  genesis : CBlock
  /-- every network's genesis block is one transaction -/
  genesis_single : genesis.vtx.length = 1
  /-- whose outputs are worth nothing -/
  genesis_worthless : (genesis.vtx.map CTransaction.getValueOut).sum = 0
  BIP34Height : Nat
  BIP34Hash : UInt256
  /-- `vParameters[pos].value`, the value before any consultation changes it -/
  vParameters : ConsensusParamsPos → Nat
  nMinimumQuorumFirstHalf : ℚ
  nMinimumQuorumSecondHalf : ℚ
  nCommunityFundMinAge : Nat
  nCommunityFundAmount : Nat
  nPaymentRequestMaxVersion : Nat
  nProposalMaxVersion : Nat
  nConsultationMaxVersion : Nat
  nConsultationAnswerMaxVersion : Nat
  nConsensusChangeMinAccept : Nat
  nLastPOWBlock : Nat
  nDailyBlockCount : Nat
  nCoinbaseTimeActivationHeight : Nat
  nHeightv452Fork : Nat
  nCoinbaseMaturity : Nat
  nStakeMinAge : Nat
  nStakeCombineThreshold : Int
  nStakeSplitThreshold : Int

/-- The genesis block of the main network: one coinbase whose only output is worth nothing. -/
def mainGenesis : CBlock where
  hash := 0x000008e0fcfb77896baff13fb761a5dcd38be007220618c8c6d69a2412af2ed2
  nTime := 1605398400
  nNonce := 2043840713
  vtx := [{
    hash := 0xc314e20303bf99faee740ef7c001cdd6afe4f0bf8f76326b024e3b6b6789ec5d
    nVersion := 1
    nTime := 1605398400
    vin := [⟨⟨0, 2 ^ 32 - 1⟩⟩]
    vout := [⟨0, []⟩]
    strDZeel := "Electrum genesis block" }]

/-- `CMainParams`.  The two quorum fractions are integer divisions in the source. -/
def mainParams : Params where
  genesis := mainGenesis
  genesis_single := rfl
  genesis_worthless := rfl
  BIP34Height := 0
  BIP34Hash := mainGenesis.hash
  vParameters
    | .votingCycleLength => 20160
    | .consultationMinSupport => 150
    | .consultationAnswerMinSupport => 150
    | .consultationMinCycles => 2
    | .consultationMaxVotingCycles => 4
    | .consultationMaxSupportCycles => 4
    | .consultationReflectionLength => 1
    | .consultationMinFee => 100000000
    | .consultationAnswerMinFee => 50000000
    | .proposalMinQuorum => 6666
    | .proposalMinAccept => 7500
    | .proposalMinReject => 7500
    | .proposalMinFee => 50000000
    | .proposalMaxVotingCycles => 6
    | .paymentRequestMinQuorum => 6666
    | .paymentRequestMinAccept => 7500
    | .paymentRequestMinReject => 7500
    | .paymentRequestMinFee => 0
    | .paymentRequestMaxVotingCycles => 8
    | .fundSpreadAccumulation => 2880
    | .fundPercentPerBlock => 1000
    | .generationPerBlock => 100000000
    | .fee0AENS => 500000000
    | .daoVoteLightMinFee => 10000000
  nMinimumQuorumFirstHalf := ((2 / 3 : Nat) : ℚ)
  nMinimumQuorumSecondHalf := ((8 / 15 : Nat) : ℚ)
  nCommunityFundMinAge := 50
  nCommunityFundAmount := 0
  nPaymentRequestMaxVersion := 31
  nProposalMaxVersion := 63
  nConsultationMaxVersion := 31
  nConsultationAnswerMaxVersion := 3
  nConsensusChangeMinAccept := 7500
  nLastPOWBlock := 20000
  nDailyBlockCount := 2880
  nCoinbaseTimeActivationHeight := 0
  nHeightv452Fork := 100
  nCoinbaseMaturity := 50
  nStakeMinAge := 10
  nStakeCombineThreshold := 1000 * COIN
  nStakeSplitThreshold := 2000 * COIN

/-- The genesis block of the development network. -/
def devGenesis : CBlock where
  hash := 0x0000492f112f4e231bd390acbf49eef563379393d35c14463f20c94064215cba
  nTime := 1605398400
  nNonce := 2043856237
  vtx := [{
    hash := 0x944abb38540a7dbf4ca9071b70e652d2b4460e38091ddb27b5a03e7087ab7c7e
    nVersion := 1
    nTime := 1605398400
    vin := [⟨⟨0, 2 ^ 32 - 1⟩⟩]
    vout := [⟨0, []⟩]
    strDZeel := "Electrum genesis block" }]

/-- `CDevNetParams`: cycles of ten blocks, and otherwise the values of the main network where
they are not listed. -/
def devParams : Params :=
  { mainParams with
    genesis := devGenesis
    genesis_single := rfl
    genesis_worthless := rfl
    BIP34Hash := devGenesis.hash
    vParameters := fun pos =>
      if pos = .votingCycleLength then 10 else mainParams.vParameters pos
    nMinimumQuorumSecondHalf := ((2 / 3 : Nat) : ℚ)
    nCommunityFundMinAge := 5
    nLastPOWBlock := 100000
    nDailyBlockCount := 17280
    nHeightv452Fork := 1000
    nCoinbaseMaturity := 5
    nStakeMinAge := 2 }

/-- `CRegTestParams`, whose genesis block depends on the time at which the node starts. -/
def regTestParams (genesis : CBlock) (hSingle : genesis.vtx.length = 1)
    (hWorthless : (genesis.vtx.map CTransaction.getValueOut).sum = 0) : Params :=
  { devParams with
    genesis := genesis
    genesis_single := hSingle
    genesis_worthless := hWorthless
    BIP34Height := 900000
    BIP34Hash := 0
    vParameters := fun pos =>
      if pos = .votingCycleLength then 180 else mainParams.vParameters pos
    nDailyBlockCount := 2880
    nCoinbaseMaturity := 50 }

end Electrum
