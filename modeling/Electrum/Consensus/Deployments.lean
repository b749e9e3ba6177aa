import Electrum.Consensus.Params
import Electrum.Consensus.VersionBits

/-!
# Deployments and the checks of headers

The deployments that blocks signal for (`VersionBitsConditionChecker`), and the rules a header has
to meet on top of its parent (`ContextualCheckBlockHeader`, and the part of `ContextualCheckBlock`
that is about headers).

Main results:
* `versionBitsState_final_iff` — when a deployment that is active or has failed stays so
* `lockedIn_iff_genuine_iff` — when only genuine signals lock a deployment in
-/

namespace Electrum

def VERSIONBITS_TOP_BITS : BitVec 32 := 0x70000000
def VERSIONBITS_TOP_BITS_SIG : BitVec 32 := 0x71000000
def VERSIONBITS_TOP_MASK : BitVec 32 := 0xF0000000

def nSegWitVersionMask : BitVec 32 := 0x00000020
def nCFundVersionMask : BitVec 32 := 0x00000040
def nNSyncVersionMask : BitVec 32 := 0x00000080
def nCFundAccVersionMask : BitVec 32 := 0x00000100
def nColdStakingVersionMask : BitVec 32 := 0x00002000
def nCFundAccSpreadVersionMask : BitVec 32 := 0x00004000
def nCFundAmountV2Mask : BitVec 32 := 0x00010000
def nCFundReducedQuorumMask : BitVec 32 := 0x00020000
def nStaticRewardVersionMask : BitVec 32 := 0x00008000
def nV451ForkMask : BitVec 32 := 0x00100000
def nV452ForkMask : BitVec 32 := 0x00200000
def nDAOVersionMask : BitVec 32 := 0x00800000
def nDaoConsensusVersionMask : BitVec 32 := 0x02000000
def nDaoExcludeVersionMask : BitVec 32 := 0x08000000

structure BIP9Deployment where
  bit : Nat
  nStartTime : Int
  nTimeout : Int
  deriving DecidableEq, Repr

/-- The part of `Consensus::Params` that the deployments and the checks of headers read. -/
structure DeploymentParams where
  vDeployments : DeploymentPos → BIP9Deployment
  nMinerConfirmationWindow : Nat
  nMinerConfirmationWindow_pos : 0 < nMinerConfirmationWindow
  nRuleChangeActivationThreshold : Int
  sigActivationTime : Int
  nMajorityWindow : Nat
  nMajorityRejectBlockOutdated : Nat
  nMaxFutureDrift : Int
  nHeightv451Fork : Nat
  nHeightv452Fork : Nat
  nLastPOWBlock : Nat
  /-- the argument `-testnet` -/
  fTestNet : Bool

/-- `CDevNetParams`. -/
def devDeployments : DeploymentParams where
  vDeployments
    | .testDummy => ⟨28, 1199145601, 1230767999⟩
    | .csv => ⟨0, 1573776000, 1668470400⟩
    | .segwit => ⟨5, 1573776000, 1668470400⟩
    | .csvLegacy | .segwitLegacy => ⟨0, 0, 0⟩
    | .communityFund => ⟨6, 1573776000, 1668470400⟩
    | .communityFundAccumulation => ⟨7, 1573776000, 1668470400⟩
    | .coldStaking => ⟨3, 1573776000, 1668470400⟩
    | .communityFundAccumulationSpread => ⟨14, 1573776000, 1668470400⟩
    | .communityFundAmountV2 => ⟨16, 1573776000, 1668470400⟩
    | .ntpSync => ⟨8, 1573776000, 1668470400⟩
    | .staticReward => ⟨15, 1573776000, 1668470400⟩
    | .quorumCFund => ⟨17, 1573776000, 1668470400⟩
    | .voteStateCache => ⟨22, 1573776000, 1668470400⟩
    | .consultations => ⟨23, 1573776000, 1668470400⟩
    | .daoConsensus => ⟨25, 1573776000, 1668470400⟩
    | .coldStakingV2 => ⟨27, 1573776000, 1668470400⟩
    | .poolFee => ⟨18, 1573776000, 1668470400⟩
    | .exclude => ⟨28, 1573776000, 1668470400⟩
  nMinerConfirmationWindow := 100
  nMinerConfirmationWindow_pos := by decide
  nRuleChangeActivationThreshold := 75
  sigActivationTime := 1512826692
  nMajorityWindow := 1000
  nMajorityRejectBlockOutdated := 950
  nMaxFutureDrift := 60000
  nHeightv451Fork := 1000
  nHeightv452Fork := 1000
  nLastPOWBlock := 100000
  fTestNet := false

/-! ## Signals -/

namespace DeploymentParams

variable {P : Type} (params : DeploymentParams) (tree : BlockTree P)

def isSigHFEnabled (pindexPrev : P) : Bool :=
  decide (tree.getMedianTimePast pindexPrev ≥ params.sigActivationTime)

def mask (id : DeploymentPos) : BitVec 32 := 1 <<< (params.vDeployments id).bit

/-- `VersionBitsConditionChecker::Condition`.  The comparison binds tighter than the conditional: it
compares the top bits with the truth value, and the pattern it chooses is the condition. -/
def condition (id : DeploymentPos) (pindex : P) : Bool :=
  (if (tree.nVersion pindex &&& VERSIONBITS_TOP_MASK) =
        (if params.isSigHFEnabled tree pindex then 1 else 0)
      then VERSIONBITS_TOP_BITS_SIG else VERSIONBITS_TOP_BITS) != 0 &&
    (tree.nVersion pindex &&& params.mask id) != 0

/-- `VersionBitsConditionChecker`. -/
def checker (id : DeploymentPos) : ThresholdConditionChecker P where
  nPeriod := params.nMinerConfirmationWindow
  nPeriod_pos := params.nMinerConfirmationWindow_pos
  nThreshold := params.nRuleChangeActivationThreshold
  nTimeStart := (params.vDeployments id).nStartTime
  nTimeTimeout := (params.vDeployments id).nTimeout
  condition := params.condition tree id

/-- `VersionBitsState`.  What the cache holds makes no difference, so it is empty here. -/
def versionBitsState [DecidableEq P] (pindexPrev : Option P) (pos : DeploymentPos) :
    ThresholdState :=
  ((params.checker tree pos).getStateFor tree Memo.empty pindexPrev).1

def isEnabled [DecidableEq P] (pindexPrev : P) (pos : DeploymentPos) : Bool :=
  params.versionBitsState tree (some pindexPrev) pos = .active

theorem versionBitsState_eq [DecidableEq P] (pindexPrev : Option P) (pos : DeploymentPos) :
    params.versionBitsState tree pindexPrev pos = (params.checker tree pos).plainState tree pindexPrev :=
  (params.checker tree pos).getStateFor_cacheAfter tree [] pindexPrev

/-- The block has the deployment's bit set. -/
def signals (id : DeploymentPos) (pindex : P) : Bool := (tree.nVersion pindex &&& params.mask id) != 0

/-- The top bits of the block are the pattern that is required at it. -/
def hasTopBits (pindex : P) : Bool :=
  let pattern :=
    if params.isSigHFEnabled tree pindex then VERSIONBITS_TOP_BITS_SIG else VERSIONBITS_TOP_BITS
  tree.nVersion pindex &&& (VERSIONBITS_TOP_MASK ||| pattern) = pattern

/-- A genuine signal: the bit under the pattern that says what the bits mean. -/
def genuine (id : DeploymentPos) (pindex : P) : Bool :=
  params.hasTopBits tree pindex && params.signals tree id pindex

/-- The top bits are not checked. -/
theorem condition_eq (id : DeploymentPos) (pindex : P) :
    params.condition tree id pindex = params.signals tree id pindex := by
  have hPattern : ∀ c : Prop, ∀ _ : Decidable c,
      ((if c then VERSIONBITS_TOP_BITS_SIG else VERSIONBITS_TOP_BITS) != 0) = true := by
    intro c _
    split <;> decide
  rw [condition, hPattern]
  rfl

end DeploymentParams

theorem ThresholdConditionChecker.countSignals_eq {P : Type} (checker : ThresholdConditionChecker P)
    (tree : BlockTree P) (n : Nat) (p : P) :
    checker.countSignals tree n (some p) = (tree.path n p).countP checker.condition := by
  induction n generalizing p with
  | zero => rfl
  | succ n ih =>
    rw [countSignals, SkipLinks.path]
    cases hParent : tree.pprev p with
    | none =>
      rw [List.countP_singleton]
      cases n <;> rfl
    | some q => rw [List.countP_cons, ih, Nat.add_comm]

namespace DeploymentParams

variable {P : Type} (params : DeploymentParams) (tree : BlockTree P)

/-- The blocks of the period that ends with the block. -/
def period (b : P) : List P := tree.path params.nMinerConfirmationWindow b

theorem checker_count (pos : DeploymentPos) (b : P) :
    (params.checker tree pos).countSignals tree (params.checker tree pos).nPeriod (some b) =
      (params.period tree b).countP (params.signals tree pos) := by
  rw [ThresholdConditionChecker.countSignals_eq]
  exact List.countP_congr fun p _ => by
    rw [show (params.checker tree pos).condition = params.condition tree pos from rfl, condition_eq]

variable [DecidableEq P]

/-- At the end of a period that began in STARTED. -/
theorem lockedIn_iff {pos : DeploymentPos} {b : P}
    (hLast : (tree.nHeight b + 1) % params.nMinerConfirmationWindow = 0)
    (hStarted : params.versionBitsState tree (tree.pprev b) pos = .started) :
    params.versionBitsState tree (some b) pos = .lockedIn ↔
      (params.vDeployments pos).nStartTime ≤ tree.getMedianTimePast b ∧
      tree.getMedianTimePast b < (params.vDeployments pos).nTimeout ∧
      params.nRuleChangeActivationThreshold ≤
        (params.period tree b).countP (params.signals tree pos) := by
  have hLast' : (tree.nHeight b + 1) % (params.checker tree pos).nPeriod = 0 := hLast
  have hBoundary : (params.checker tree pos).plainBoundary tree b = some b := by
    rw [ThresholdConditionChecker.plainBoundary, hLast']
    rfl
  rw [versionBitsState_eq, ThresholdConditionChecker.plainState,
    (params.checker tree pos).plainBoundary_parent tree hLast'] at hStarted
  rw [versionBitsState_eq, ThresholdConditionChecker.plainState, Option.bind_some, hBoundary]
  by_cases hEarly : tree.getMedianTimePast b < (params.vDeployments pos).nStartTime
  · rw [(params.checker tree pos).periodState_early tree hEarly]
    constructor
    · intro hState
      cases hState
    · intro hLate
      exact absurd hEarly (not_lt.mpr hLate.1)
  · rw [(params.checker tree pos).periodState_late tree hEarly, hStarted,
      ThresholdConditionChecker.transition, checker_count]
    show (if tree.getMedianTimePast b ≥ (params.vDeployments pos).nTimeout then ThresholdState.failed
      else if ((params.period tree b).countP (params.signals tree pos) : Int) ≥
        params.nRuleChangeActivationThreshold then .lockedIn else .started) = .lockedIn ↔ _
    split_ifs with hTimeout hCount
    · simp only [false_iff, not_and]
      omega
    · simp only [true_iff]
      exact ⟨not_lt.mp hEarly, not_le.mp hTimeout, hCount⟩
    · simp only [false_iff, not_and]
      intro _ _ hEnough
      exact hCount hEnough

/-- **When only genuine signals count.**  The deployment locks in exactly when the genuine signals
reach the threshold before the timeout, unless signals without the pattern make up the rest, or the
median time fell back before the start. -/
theorem lockedIn_iff_genuine_iff {pos : DeploymentPos} {b : P}
    (hLast : (tree.nHeight b + 1) % params.nMinerConfirmationWindow = 0)
    (hStarted : params.versionBitsState tree (tree.pprev b) pos = .started) :
    (params.versionBitsState tree (some b) pos = .lockedIn ↔
        params.nRuleChangeActivationThreshold ≤
            (params.period tree b).countP (params.genuine tree pos) ∧
          tree.getMedianTimePast b < (params.vDeployments pos).nTimeout) ↔
      ¬ (tree.getMedianTimePast b < (params.vDeployments pos).nTimeout ∧
        ((params.vDeployments pos).nStartTime ≤ tree.getMedianTimePast b ∧
            (params.period tree b).countP (params.genuine tree pos) <
              params.nRuleChangeActivationThreshold ∧
            params.nRuleChangeActivationThreshold ≤
              (params.period tree b).countP (params.signals tree pos) ∨
          tree.getMedianTimePast b < (params.vDeployments pos).nStartTime ∧
            params.nRuleChangeActivationThreshold ≤
              (params.period tree b).countP (params.genuine tree pos))) := by
  have hFewer : (params.period tree b).countP (params.genuine tree pos) ≤
      (params.period tree b).countP (params.signals tree pos) := by
    refine List.countP_mono_left fun p _ hGenuine => ?_
    rw [genuine, Bool.and_eq_true] at hGenuine
    exact hGenuine.2
  rw [params.lockedIn_iff tree hLast hStarted]
  omega

/-- Blocks of one version, after the start of the deployments. -/
def signalling (nVersion : BitVec 32) : BlockTree Nat :=
  .line (fun n => 1605398400 + 30 * n) fun _ => nVersion

/-- Blocks with the bit of the consultations under the pattern lock them in. -/
theorem lockedIn_iff_genuine_iff_marked :
    devDeployments.versionBitsState (signalling 0x71800000) (some 199) .consultations = .lockedIn ∧
      (devDeployments.versionBitsState (signalling 0x71800000) (some 199) .consultations = .lockedIn ↔
        devDeployments.nRuleChangeActivationThreshold ≤
            (devDeployments.period (signalling 0x71800000) 199).countP
              (devDeployments.genuine (signalling 0x71800000) .consultations) ∧
          (signalling 0x71800000).getMedianTimePast 199 <
            (devDeployments.vDeployments .consultations).nTimeout) := by
  refine ⟨by decide +kernel, (lockedIn_iff_genuine_iff devDeployments (signalling 0x71800000)
    (by decide +kernel) (by decide +kernel)).mpr ?_⟩
  decide +kernel

/-- So do blocks with the sign bit above it.  That is not the pattern, but has the bits of it that
the check of a header asks for. -/
theorem lockedIn_without_pattern :
    devDeployments.versionBitsState (signalling 0xf1800000) ((signalling 0xf1800000).pprev 199)
        .consultations = .started ∧
      devDeployments.versionBitsState (signalling 0xf1800000) (some 199) .consultations = .lockedIn ∧
      (devDeployments.period (signalling 0xf1800000) 199).countP
        (devDeployments.genuine (signalling 0xf1800000) .consultations) = 0 := by
  decide +kernel

end DeploymentParams

/-! ## The checks of a header -/

inductive RejectCode
  | invalid
  | obsolete
  deriving DecidableEq, Repr

/-- What `state.Invalid` and `state.DoS` record. -/
structure HeaderRejection where
  chRejectCode : RejectCode
  strRejectReason : String
  strDebugMessage : String
  deriving DecidableEq, Repr

/-- The block index with what the checks read of a block and of the node that checks it. -/
structure CheckedTree (P : Type) extends BlockTree P where
  /-- the time of the coinstake of a staked block -/
  coinStakeTime : P → Option Nat
  /-- the adjusted time at which the node checked the block -/
  nAdjustedTime : P → Int
  /-- what `ContextualCheckBlock` checks about the transactions of the block -/
  checkTransactions : P → Bool

namespace CheckedTree

variable {P : Type} [DecidableEq P] (tree : CheckedTree P) (params : DeploymentParams)

/-- The loop of `IsSuperMajority`, with what it has found. -/
def countVersions (minVersion : Int) (nRequired : Nat) : Nat → Option P → Nat → Nat
  | 0, _, nFound => nFound
  | _ + 1, none, nFound => nFound
  | i + 1, some pstart, nFound =>
    if nFound < nRequired then
      countVersions minVersion nRequired i (tree.pprev pstart)
        (if (tree.nVersion pstart).toInt ≥ minVersion then nFound + 1 else nFound)
    else nFound

def isSuperMajority (minVersion : Int) (pstart : Option P) (nRequired : Nat) : Bool :=
  decide (tree.countVersions minVersion nRequired params.nMajorityWindow pstart 0 ≥ nRequired)

def badVersion (nVersion : BitVec 32) : String := "bad-version(0x" ++ nVersion.toHex ++ ")"

/-- The block's version has to carry the bits of what is enforced. -/
def requireBits (nVersion mask : BitVec 32) (enforced : Bool) (text : String) :
    Except HeaderRejection Unit :=
  if nVersion &&& mask ≠ mask ∧ enforced then
    .error ⟨.obsolete, badVersion nVersion, text⟩
  else .ok ()

/-- Outdated versions are rejected once nearly all of the last blocks have a later one. -/
def checkOutdated (block pindexPrev : P) (version : Int) : Except HeaderRejection Unit :=
  if (tree.nVersion block).toInt < version ∧
      tree.isSuperMajority params version (some pindexPrev) params.nMajorityRejectBlockOutdated then
    .error ⟨.obsolete, badVersion (BitVec.ofInt 32 (version - 1)),
      "rejected nVersion=0x" ++ (BitVec.ofInt 32 (version - 1)).toHex ++ " block"⟩
  else .ok ()

omit [DecidableEq P] in
theorem checkOutdated_recent {block pindexPrev : P} {version : Int}
    (hRecent : version ≤ (tree.nVersion block).toInt) :
    tree.checkOutdated params block pindexPrev version = .ok () :=
  if_neg fun h => not_le.mpr h.1 hRecent

theorem requireBits_free {nVersion mask : BitVec 32} {text : String} :
    requireBits nVersion mask false text = .ok () :=
  if_neg fun h => Bool.false_ne_true h.2

def contextualCheckBlockHeader (block pindexPrev : P) : Except HeaderRejection Unit := do
  let isEnabled := params.isEnabled tree.toBlockTree pindexPrev
  let nVersion := tree.nVersion block
  if (tree.nTime block : Int) > tree.nAdjustedTime block +
      (if isEnabled .ntpSync then params.nMaxFutureDrift else 2 * 60 * 60) then
    throw ⟨.invalid, "time-too-new", "block timestamp too far in the future"⟩
  tree.checkOutdated params block pindexPrev 2
  tree.checkOutdated params block pindexPrev 3
  tree.checkOutdated params block pindexPrev 4
  requireBits nVersion VERSIONBITS_TOP_BITS_SIG (params.isSigHFEnabled tree.toBlockTree pindexPrev)
    "rejected no sig block"
  requireBits nVersion nSegWitVersionMask (isEnabled .segwit) "rejected no segwit block"
  requireBits nVersion nCFundVersionMask (isEnabled .communityFund) "rejected no cfund block"
  requireBits nVersion nCFundAccVersionMask
    (!params.fTestNet && isEnabled .communityFundAccumulation)
    "rejected no cfund accumulation block"
  requireBits nVersion nColdStakingVersionMask (!params.fTestNet && isEnabled .coldStaking)
    "rejected no cold-staking block"
  requireBits nVersion nCFundAccSpreadVersionMask (isEnabled .communityFundAccumulationSpread)
    "rejected no cfund accumulation spread block"
  requireBits nVersion nCFundAmountV2Mask (isEnabled .communityFundAmountV2)
    "rejected no cfund amount v2 block"
  requireBits nVersion nNSyncVersionMask (isEnabled .ntpSync) "rejected no nsync block"
  requireBits nVersion nStaticRewardVersionMask (isEnabled .staticReward)
    "rejected no static reward block"
  requireBits nVersion nCFundReducedQuorumMask (isEnabled .quorumCFund)
    "rejected no reduced quorum block"
  requireBits nVersion nV451ForkMask (decide (tree.nHeight pindexPrev ≥ params.nHeightv451Fork))
    "rejected, block version isn't v4.5.1"
  requireBits nVersion nV452ForkMask (decide (tree.nHeight pindexPrev ≥ params.nHeightv452Fork))
    "rejected, block version isn't v4.5.2"
  requireBits nVersion nDAOVersionMask (isEnabled .consultations) "rejected no consultations block"
  requireBits nVersion nDaoExcludeVersionMask (isEnabled .exclude) "rejected no consultations block"
  requireBits nVersion nDaoConsensusVersionMask (isEnabled .daoConsensus)
    "rejected no dao consensus block"

def STAKE_TIMESTAMP_MASK : Nat := 15

def checkCoinStakeTimestamp (nHeight nTimeBlock nTimeTx : Nat) : Bool :=
  if nHeight > 0 then nTimeBlock == nTimeTx && (nTimeTx &&& STAKE_TIMESTAMP_MASK) == 0
  else nTimeBlock == nTimeTx

/-- `ContextualCheckBlock`.  What it checks about the transactions (finality, cold staking outputs,
the height in the coinbase, the witness commitment and the weight) is given. -/
def contextualCheckBlock (block pindexPrev : P) : Except HeaderRejection Unit := do
  let nHeight := tree.nHeight pindexPrev + 1
  if (tree.coinStakeTime block).isNone ∧ nHeight > params.nLastPOWBlock then
    throw ⟨.invalid, "check-pow-height", "pow-mined blocks not allowed"⟩
  if params.isEnabled tree.toBlockTree pindexPrev .ntpSync ∧
      tree.nTime block < tree.nTime pindexPrev then
    throw ⟨.invalid, "too-old", "block goes too far in the past"⟩
  if (tree.coinStakeTime block).any fun nTimeTx =>
      !checkCoinStakeTimestamp nHeight (tree.nTime block) nTimeTx then
    throw ⟨.invalid, "check-coinstake-timestamp", "coinstake timestamp violation"⟩
  if !tree.checkTransactions block then
    throw ⟨.invalid, "", ""⟩

/-- Every block of the branch passed both checks on top of its parent. -/
def AcceptedChain (tip : P) : Prop :=
  ∀ block pindexPrev, tree.Under block tip → tree.pprev block = some pindexPrev →
    tree.contextualCheckBlockHeader params block pindexPrev = .ok () ∧
      tree.contextualCheckBlock params block pindexPrev = .ok ()

/-- **When a final state stays.**  A deployment that is active or has failed at a block keeps that
state at all descendants exactly when no later period ends with a median time before its start. -/
theorem versionBitsState_final_iff {pos : DeploymentPos} {p : P} {state : ThresholdState}
    (hFinal : state.Final)
    (hState : params.versionBitsState tree.toBlockTree (some p) pos = state) :
    (∀ q, tree.Under p q → params.versionBitsState tree.toBlockTree (some q) pos = state) ↔
      ∀ q b, tree.Under p q →
        (tree.nHeight p + 1) / params.nMinerConfirmationWindow ≠
          (tree.nHeight q + 1) / params.nMinerConfirmationWindow →
        tree.back ((tree.nHeight q + 1) % params.nMinerConfirmationWindow) q = some b →
        (params.vDeployments pos).nStartTime ≤ tree.getMedianTimePast b := by
  simp only [DeploymentParams.versionBitsState_eq] at hState ⊢
  exact (params.checker tree.toBlockTree pos).plainState_final_iff tree.toBlockTree hFinal hState

/-- A chain of mined blocks with the bits of every rule but those of the community fund's
accumulation and of the time synchronisation set. -/
def mined (nTime : Nat → Nat) : CheckedTree Nat :=
  { BlockTree.line nTime fun _ => 0x7bb3e060 with
    coinStakeTime := fun _ => none
    nAdjustedTime := fun _ => 1605500000
    checkTransactions := fun _ => true }

/-- A chain whose times stay after the start keeps the deployment active. -/
theorem versionBitsState_final_iff_steady :
    devDeployments.versionBitsState (mined fun _ => 1605398400).toBlockTree (some 299)
        .consultations = .active ∧
      ∀ q, (mined fun _ => 1605398400).Under 299 q →
        devDeployments.versionBitsState (mined fun _ => 1605398400).toBlockTree (some q)
          .consultations = .active := by
  have hActive : devDeployments.versionBitsState (mined fun _ => 1605398400).toBlockTree (some 299)
      .consultations = .active := by decide +kernel
  refine ⟨hActive, (versionBitsState_final_iff _ devDeployments (Or.inl rfl) hActive).mpr ?_⟩
  intro q b _ _ _
  refine le_trans (b := (1605398400 : Int)) (by decide) ?_
  exact BlockTree.le_getMedianTimePast _ (fun _ => le_rfl) b

/-! ## A chain whose median time falls back -/

/-- The times of three periods, and earlier ones after them. -/
def fallenTime (n : Nat) : Nat := if n < 300 then 1605398400 + 30 * n else 1573000000

/-- The boundaries of the first four periods. -/
theorem plainBoundary_mined (nTime : Nat → Nat) (pos : DeploymentPos) {n : Nat} (hLow : n < 399) :
    (devDeployments.checker (mined nTime).toBlockTree pos).plainBoundary (mined nTime).toBlockTree n ∈
      [none, some 99, some 199, some 299] := by
  show (mined nTime).back ((n + 1) % 100) n ∈ _
  rcases Nat.lt_or_ge n 99 with hFirst | hLater
  · rw [(mined nTime).back_eq_none (show n < (n + 1) % 100 by omega)]
    decide
  · obtain ⟨b, hBack, hHeight⟩ :=
      (mined nTime).back_eq_some (show (n + 1) % 100 ≤ n by omega)
    have hAt : b + (n + 1) % 100 = n := hHeight
    have hCases : b = 99 ∨ b = 199 ∨ b = 299 := by omega
    rw [hBack]
    rcases hCases with rfl | rfl | rfl <;> decide

/-- What no block signals for does not become active. -/
theorem isEnabled_fallen {n : Nat} (hLow : n < 399) {pos : DeploymentPos}
    (hPos : pos ∈ [.ntpSync, .communityFundAccumulation]) :
    devDeployments.isEnabled (mined fallenTime).toBlockTree n pos = false := by
  have hStates : ∀ b ∈ [none, some 99, some 199, some 299],
      ∀ pos ∈ [DeploymentPos.ntpSync, .communityFundAccumulation],
        (devDeployments.checker (mined fallenTime).toBlockTree pos).periodState
          (mined fallenTime).toBlockTree b ≠ .active := by
    decide +kernel
  rw [DeploymentParams.isEnabled, DeploymentParams.versionBitsState_eq, decide_eq_false_iff_not]
  exact hStates _ (plainBoundary_mined fallenTime pos hLow) pos hPos

theorem fallenTime_le (n : Nat) (hLow : n < 400) : (fallenTime n : Int) ≤ 1605500000 := by
  unfold fallenTime
  split <;> omega

/-- **The consultations are active, and a hundred blocks later they are not even started.** -/
theorem fallen_back :
    (mined fallenTime).AcceptedChain devDeployments 399 ∧ (mined fallenTime).Under 299 399 ∧
      devDeployments.versionBitsState (mined fallenTime).toBlockTree (some 299) .consultations =
        .active ∧
      devDeployments.versionBitsState (mined fallenTime).toBlockTree (some 399) .consultations =
        .defined := by
  refine ⟨?_, ⟨100, by decide +kernel⟩, by decide +kernel, by decide +kernel⟩
  rintro block pindexPrev ⟨n, hBack⟩ hParent
  have hBelow : block + n = 399 := (mined fallenTime).nHeight_of_back hBack
  have hUp : block = pindexPrev + 1 := (mined fallenTime).nHeight_of_pprev hParent
  have hSync : devDeployments.isEnabled (mined fallenTime).toBlockTree pindexPrev .ntpSync = false :=
    isEnabled_fallen (by omega) (by decide)
  have hAcc : devDeployments.isEnabled (mined fallenTime).toBlockTree pindexPrev
      .communityFundAccumulation = false := isEnabled_fallen (by omega) (by decide)
  have hTime := fallenTime_le block (by omega)
  have hRecent : ∀ version : Int, version ≤ 4 →
      (mined fallenTime).checkOutdated devDeployments block pindexPrev version = .ok () := by
    intro version hVersion
    refine checkOutdated_recent _ _ (le_trans hVersion ?_)
    show (4 : Int) ≤ BitVec.toInt (0x7bb3e060 : BitVec 32)
    decide
  constructor
  · have hVersion : (mined fallenTime).nVersion block = 0x7bb3e060 := rfl
    have hClock : ¬ (((mined fallenTime).nTime block : Int) >
        (mined fallenTime).nAdjustedTime block + 2 * 60 * 60) := by
      show ¬ ((fallenTime block : Int) > 1605500000 + 2 * 60 * 60)
      omega
    simp only [contextualCheckBlockHeader, hSync, hAcc, hVersion, Bool.false_eq_true, if_false,
      hClock, hRecent, Int.reduceLE, Bool.and_false, requireBits_free]
    rfl
  · have hHeight : ¬ ((mined fallenTime).nHeight pindexPrev + 1 > devDeployments.nLastPOWBlock) := by
      show ¬ (pindexPrev + 1 > 100000)
      omega
    have hMined : (mined fallenTime).coinStakeTime block = none := rfl
    have hChecked : (mined fallenTime).checkTransactions block = true := rfl
    simp only [contextualCheckBlock, hHeight, hSync, hMined, hChecked, and_false, if_false,
      Bool.false_eq_true, false_and, Option.any_none, Bool.not_true]
    rfl

end CheckedTree

end Electrum
