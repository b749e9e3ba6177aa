import Electrum.Validation.ConnectBlock

/-!
# CreateCoinStake

How the wallet builds a coinstake: it looks for a kernel among its coins, adds further coins of
the same script, and spreads inputs and reward over one or two outputs of the staker, the shares
of a pool or of the configured addresses, and the contribution to the fund.  Keys, signatures
and the kernel hash are functions of the wallet.
-/

namespace Electrum

def CENT : Int := 1000000

/-- A coin of the wallet: a pointer to a transaction with the position of an output. -/
structure StakeCoin where
  prevout : COutPoint
  out : CTxOut
  /-- the time of the transaction -/
  nTime : Nat
  prevout_notNull : prevout.isNull = false

/-- What `CreateCoinStake` takes from the wallet, its arguments and the command line. -/
structure StakingWallet where
  /-- `GetBalance() + GetColdStakingBalance()` -/
  nBalance : Int
  nReserveBalance : Int
  /-- the coins for a target value and a time, in the order of the set -/
  selectCoinsForStaking : Int → Nat → Option (List StakeCoin)
  /-- `CheckKernel` on the tip with the given `nBits` -/
  checkKernel : COutPoint → Nat → Bool
  /-- the script to pay for a kernel's script, if it is of a known kind and its key is there -/
  kernelOutput : CScript → Option CScript
  /-- the address of that key -/
  kernelAddress : CScript → String
  /-- `CElectrumAddress(str)`, if it is valid -/
  decodeAddress : String → Option (List UInt8)
  /-- `GetScriptForDestination` -/
  scriptForAddress : List UInt8 → CScript
  /-- `get_real`; throws on what is no number -/
  getReal : UniValue → Option ℚ
  /-- `-pooladdress` -/
  poolAddress : String
  /-- `-poolfee` -/
  poolFee : Int
  /-- `-stakingaddress` -/
  stakingAddress : String
  /-- every input can be signed, and the transaction is not too large -/
  canSign : CTransaction → Bool
  /-- the hash of a transaction with these data -/
  hashOf : (nVersion : Int) → (nTime : Nat) → List CTxIn → List CTxOut → UInt256

/-! ## Inputs -/

namespace StakingWallet

variable (w : StakingWallet)

/-- What may be staked. -/
def limit : Int := w.nBalance - w.nReserveBalance

/-- The kernel search: the coin, how many seconds back, and the script to pay.  A coin whose
kernel is found but cannot be used is passed over. -/
def findKernel (nTime nSearchInterval : Nat) : List StakeCoin → Option (StakeCoin × Nat × CScript)
  | [] => none
  | coin :: rest =>
    match (List.range (min nSearchInterval 60)).find? fun n =>
        w.checkKernel coin.prevout (nTime - n) with
    | none => findKernel nTime nSearchInterval rest
    | some n =>
      match w.kernelOutput coin.out.scriptPubKey with
      | none => findKernel nTime nSearchInterval rest
      | some script => some (coin, n, script)

/-- The loop that adds coins of the kernel's script, with `nCredit`. -/
def addInputs (node : Node) (kernel : StakeCoin) (script : CScript) (nTime : Nat) :
    List StakeCoin → List CTxIn → Int → List CTxIn × Int
  | [], vin, nCredit => (vin, nCredit)
  | coin :: rest, vin, nCredit =>
    if (coin.out.scriptPubKey == kernel.out.scriptPubKey || coin.out.scriptPubKey == script) &&
        coin.prevout.hash != kernel.prevout.hash then
      let nTimeWeight : Int := (nTime : Int) - coin.nTime - node.params.nStakeMinAge
      -- too many inputs, or the reserve is reached
      if decide (100 ≤ vin.length) || decide (w.limit < nCredit + coin.out.nValue) then
        (vin, nCredit)
      -- a significant coin, a young coin, or one that cannot be found
      else if decide (node.params.nStakeCombineThreshold ≤ coin.out.nValue) ||
          decide (nTimeWeight < node.params.nStakeMinAge) ||
          (node.getTransaction coin.prevout.hash).isNone then
        addInputs node kernel script nTime rest vin nCredit
      else
        addInputs node kernel script nTime rest (vin ++ [⟨coin.prevout⟩])
          (nCredit + coin.out.nValue)
    else addInputs node kernel script nTime rest vin nCredit

/-! ## Shares of the reward -/

/-- A conversion of a `double` to an integer: towards zero. -/
def truncate (q : ℚ) : Int := if q < 0 then -(-q).floor else q.floor

/-- The entries of `-stakingaddress` for one key, in the order of their names; an error if they
take more than everything. -/
def splitObject : List (String × UniValue) → ℚ → Map (List UInt8) ℚ → Option (Map (List UInt8) ℚ)
  | [], _, splitMap => some splitMap
  | (name, value) :: rest, nAccumulatedFee, splitMap =>
    match w.decodeAddress name with
    | none => splitObject rest nAccumulatedFee splitMap
    | some address =>
      (w.getReal value).bind fun real =>
        if real ≤ 0 then splitObject rest nAccumulatedFee splitMap
        else if 100 < Binary.f64 (nAccumulatedFee + real) then none
        else splitObject rest (Binary.f64 (nAccumulatedFee + real)) (splitMap.insert address real)

/-- `getObjMap`: the last value of every name, by name. -/
def objMap (keys : List (String × UniValue)) : List (String × UniValue) :=
  (keys.foldl (fun m kv => m.insert kv.1 kv.2) (∅ : Map String UniValue)).toList

/-- `splitMap`: the percentages that go to other addresses. -/
def splitMap (node : Node) (kernelScript : CScript) : Option (Map (List UInt8) ℚ) :=
  match node.readJSON w.stakingAddress with
  | none =>
    match w.decodeAddress w.stakingAddress with
    | none => some ∅
    | some address => some ((∅ : Map (List UInt8) ℚ).insert address 100)
  | some (.vobj keys) =>
    let own := w.kernelAddress kernelScript
    let lookForKey := match UniValue.findValue (.vobj keys) own with
      | .vstr _ => own
      | .vobj entries => if entries.isEmpty then "all" else own
      | _ => "all"
    match UniValue.findValue (.vobj keys) lookForKey with
    | .vstr str => (w.decodeAddress str).map fun address =>
        (∅ : Map (List UInt8) ℚ).insert address 100
    | .vobj entries => w.splitObject (objMap entries) 0 ∅
    | _ => some ∅
  | some _ => none

/-- The outputs that take a share of the reward. -/
def rewardShares (node : Node) (kernelScript : CScript) (nReward : Int) : Option (List CTxOut) :=
  let nPoolFee := Binary.f64 (Binary.f64 w.poolFee / 100)
  match (w.decodeAddress w.poolAddress).filter fun _ => decide (0 < nPoolFee) with
  | some address =>
    some [⟨truncate (Binary.f64 (Binary.f64 nReward * nPoolFee)), w.scriptForAddress address⟩]
  | none =>
    if w.stakingAddress == "" then some []
    else (w.splitMap node kernelScript).map fun splitMap => splitMap.toList.map fun entry =>
      ⟨truncate (Binary.f64 (Binary.f64 (Binary.f64 nReward * entry.2) / 100)),
        w.scriptForAddress entry.1⟩

end StakingWallet

/-! ## Outputs -/

/-- One stake output, or two halves when the value is large. -/
def stakeOutputs (node : Node) (script : CScript) (blockValue : Int) : List CTxOut :=
  if node.params.nStakeSplitThreshold ≤ blockValue then
    let half := (blockValue.tdiv 2).tdiv CENT * CENT
    [⟨half, script⟩, ⟨blockValue - half, script⟩]
  else [⟨blockValue, script⟩]

/-- `SetScriptForCommunityFundContribution`. -/
def contributionScript : CScript := [OP_RETURN, OP_CFUND]

/-- The contribution to the fund that the wallet adds; `none` is a division by zero. -/
def fundOutputs (node : Node) (pindexPrev : Chain) (view : CStateView) (nHeight : Nat) :
    Option (List CTxOut) :=
  let env := node.toEnv
  let amount := if env.isActive .communityFundAmountV2 pindexPrev then
    getFundContributionPerBlock env view else env.params.nCommunityFundAmount
  if isCommunityFundAccumulationEnabled env pindexPrev then
    if env.isActive .communityFundAccumulationSpread pindexPrev then
      let nSpread := getConsensusParameter env view .fundSpreadAccumulation
      if nSpread == 0 then none
      else if nHeight % nSpread == 0 then some [⟨toI64 (amount * nSpread), contributionScript⟩]
      else some []
    else some [⟨toI64 amount, contributionScript⟩]
  else some []

/-- `CreateCoinStake` on the tip `pindexPrev` at the time `nTime`. -/
def createCoinStake (node : Node) (w : StakingWallet) (pindexPrev : Chain) (view : CStateView)
    (nTime nSearchInterval : Nat) (nFees : Int) : Option CTransaction := do
  guard (w.nReserveBalance < w.nBalance)
  let tip ← pindexPrev.head?
  let setCoins ← w.selectCoinsForStaking w.limit nTime
  let (kernel, n, script) ← w.findKernel nTime nSearchInterval setCoins
  let nTime := nTime - n
  guard (kernel.out.nValue ≠ 0 ∧ kernel.out.nValue ≤ w.limit)
  let (vin, nCredit) := w.addInputs node kernel script nTime setCoins [⟨kernel.prevout⟩]
    kernel.out.nValue
  -- the reward is computed before the outputs have their values
  let nCoinAge ← node.getCoinAge view ⟨0, 1, nTime, vin, [⟨0, []⟩, ⟨0, script⟩], ""⟩
  let nReward := getProofOfStakeReward node.toEnv (tip.nHeight + 1) nCoinAge nFees pindexPrev view
  guard (0 < nReward)
  let shares ← w.rewardShares node kernel.out.scriptPubKey nReward
  let blockValue := nCredit + nReward - (shares.map (·.nValue)).sum
  let fund ← fundOutputs node pindexPrev view (tip.nHeight + 1)
  let vout := ⟨0, []⟩ :: stakeOutputs node script blockValue ++ shares ++ fund
  let nVersion : Int := if node.isActive .communityFund pindexPrev then 3 else 2
  let tx : CTransaction := ⟨w.hashOf nVersion nTime vin vout, nVersion, nTime, vin, vout, ""⟩
  guard (w.canSign tx)
  return tx

end Electrum
