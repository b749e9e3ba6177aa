import Electrum.Validation.ColdStaking
import Electrum.Wallet.CreateCoinStake

/-!
# The coinstakes of the wallet are accepted

A coinstake from `CreateCoinStake` is worth exactly its inputs and its reward, besides the
contribution to the fund, in every case: with one or two stake outputs, with a pool, with a
configured list of addresses, with or without a contribution.  `ConnectBlock`, which computes
contribution and reward on its own, therefore accepts both.

Main results:
* `addInputs_value` — `nCredit` is the value of the inputs
* `createCoinStake_parts` — what the wallet puts together
* `createCoinStake_accepted` — both checks pass, and the sum is exact
-/

namespace Electrum

open List Option

/-! ## Inputs -/

/-- The value of inputs in a view. -/
def inputsValue (view : CStateView) (vin : List CTxIn) : Int :=
  (vin.map fun txin => ((view.outputFor txin.prevout).map (·.nValue)).getD 0).sum

/-- The wallet knows its coins as the view has them. -/
def StakingWallet.AgreesWith (w : StakingWallet) (view : CStateView) : Prop :=
  ∀ target nTime coins, w.selectCoinsForStaking target nTime = some coins →
    ∀ coin ∈ coins, view.outputFor coin.prevout = some coin.out

variable {view : CStateView} {n nHeight : Nat} {node : Node} {pindexPrev : Chain}
  {fund : List CTxOut}

theorem inputsValue_concat {coin : StakeCoin}
    (h : view.outputFor coin.prevout = some coin.out) (vin : List CTxIn) :
    inputsValue view (vin ++ [⟨coin.prevout⟩]) = inputsValue view vin + coin.out.nValue := by
  rw [inputsValue, inputsValue]
  simp [h]

variable {kernel : StakeCoin} {coins : List StakeCoin} {vin : List CTxIn} {w : StakingWallet}
  {nTime nSearchInterval : Nat} {nFees : Int} {tx : CTransaction}

/-- **The inputs.** The loop keeps the kernel in front, and `nCredit` is what the inputs are
worth. -/
theorem addInputs_value (w : StakingWallet) (node : Node) (script : CScript)
    (nTime : Nat) {nCredit : Int}
    (hCoins : ∀ coin ∈ coins, view.outputFor coin.prevout = some coin.out)
    (hValue : inputsValue view vin = nCredit) (hKernel : vin.head? = some ⟨kernel.prevout⟩) :
    inputsValue view (w.addInputs node kernel script nTime coins vin nCredit).1 =
        (w.addInputs node kernel script nTime coins vin nCredit).2 ∧
      (w.addInputs node kernel script nTime coins vin nCredit).1.head? = some ⟨kernel.prevout⟩ := by
  induction coins generalizing vin nCredit with
  | nil => exact ⟨hValue, hKernel⟩
  | cons coin rest ih =>
    have hRest :=
      fun c hc => hCoins c (mem_cons_of_mem coin hc)
    unfold StakingWallet.addInputs
    dsimp only
    split
    case isFalse => exact ih hRest hValue hKernel
    case isTrue =>
      split
      case isTrue => exact ⟨hValue, hKernel⟩
      case isFalse =>
        split
        case isTrue => exact ih hRest hValue hKernel
        case isFalse =>
          -- the coin is added to both sides
          apply ih hRest
          · rw [inputsValue_concat (hCoins coin mem_cons_self), hValue]
          · rw [head?_append, hKernel]
            rfl

theorem findKernel_mem {script : CScript}
    (h : w.findKernel nTime nSearchInterval coins = some (kernel, n, script)) :
    kernel ∈ coins := by
  induction coins with
  | nil => cases h
  | cons coin rest ih =>
    unfold StakingWallet.findKernel at h
    split at h
    case h_1 => exact mem_cons_of_mem coin (ih h)
    case h_2 =>
      split at h
      case h_1 => exact mem_cons_of_mem coin (ih h)
      case h_2 =>
        cases h
        exact mem_cons_self

/-! ## Outputs -/

/-- Splitting the stake loses nothing. -/
theorem stakeOutputs_value (node : Node) (script : CScript) (blockValue : Int) :
    ((stakeOutputs node script blockValue).map (·.nValue)).sum = blockValue := by
  unfold stakeOutputs
  split
  · simp
  · simp

theorem stakeOutputs_ne_nil (node : Node) (script : CScript) (blockValue : Int) :
    ∃ out rest, stakeOutputs node script blockValue = out :: rest := by
  unfold stakeOutputs
  split
  · exact ⟨_, _, rfl⟩
  · exact ⟨_, _, rfl⟩

/-- The contribution fits into an amount, and its multiplier into an `int`. -/
structure ContributionFits (node : Node) (pindexPrev : Chain) (view : CStateView) : Prop where
  spread : getConsensusParameter node.toEnv view .fundSpreadAccumulation < 2 ^ 31
  amount : contributionDue node.toEnv pindexPrev view < 2 ^ 63
  product : contributionDue node.toEnv pindexPrev view *
    getConsensusParameter node.toEnv view .fundSpreadAccumulation < 2 ^ 63

theorem toI64_natCast (h : n < 2 ^ 63) : toI64 n = n := by
  unfold toI64
  rw [Nat.mod_eq_of_lt (by omega), if_pos h]

theorem toI32_natCast (h : n < 2 ^ 31) : toI32 n = n := by
  unfold toI32
  omega

/-- **The contribution.** The wallet pays it exactly when it is due, and pays what is due. -/
theorem fundOutputs_eq (hFits : ContributionFits node pindexPrev view)
    (hAcc : isCommunityFundAccumulationEnabled node.toEnv pindexPrev = true)
    (h : fundOutputs node pindexPrev view nHeight = some fund) :
    (node.isActive .communityFundAccumulationSpread pindexPrev = true →
      getConsensusParameter node.toEnv view .fundSpreadAccumulation ≠ 0) ∧
    ((0 < contributionMultiplier node.toEnv pindexPrev view nHeight ∧
      fund = [⟨contributionDue node.toEnv pindexPrev view *
        contributionMultiplier node.toEnv pindexPrev view nHeight, contributionScript⟩]) ∨
    (contributionMultiplier node.toEnv pindexPrev view nHeight = 0 ∧ fund = [])) := by
  obtain ⟨hSpread, hAmount, hProduct⟩ := hFits
  -- the amount of one block, as a natural number
  obtain ⟨amount, hDue, hSame⟩ : ∃ amount : Nat,
      contributionDue node.toEnv pindexPrev view = amount ∧
      (if node.isActive .communityFundAmountV2 pindexPrev then
        getFundContributionPerBlock node.toEnv view else node.params.nCommunityFundAmount) =
        amount := by
    unfold contributionDue
    split
    · exact ⟨_, rfl, rfl⟩
    · exact ⟨_, rfl, rfl⟩
  unfold fundOutputs at h
  dsimp only at h
  rw [hSame, if_pos hAcc] at h
  rw [hDue] at hAmount hProduct ⊢
  unfold contributionMultiplier
  generalize getConsensusParameter node.toEnv view .fundSpreadAccumulation = nSpread
    at h hSpread hProduct ⊢
  by_cases hActive : node.isActive .communityFundAccumulationSpread pindexPrev = true
  · rw [if_pos hActive] at h ⊢
    by_cases hZero : nSpread = 0
    · rw [if_pos (by simpa using hZero)] at h
      cases h
    · rw [if_neg (by simpa using hZero)] at h
      refine ⟨fun _ => hZero, ?_⟩
      by_cases hHeight : nHeight % nSpread = 0
      · rw [if_pos (by simpa using hHeight)] at h ⊢
        cases h
        rw [toI32_natCast hSpread, toI64_natCast (by exact_mod_cast hProduct)]
        exact .inl ⟨by omega, by rfl⟩
      · rw [if_neg (by simpa using hHeight)] at h ⊢
        cases h
        exact .inr ⟨rfl, rfl⟩
  · rw [if_neg hActive] at h ⊢
    cases h
    refine ⟨fun hOn => absurd hOn hActive, .inl ⟨by decide, ?_⟩⟩
    rw [toI64_natCast (by exact_mod_cast hAmount), Int.mul_one]

/-- At most one output, with the script of a contribution. -/
theorem fundOutputs_contribution (h : fundOutputs node pindexPrev view nHeight = some fund) :
    fund.length ≤ 1 ∧ ∀ out ∈ fund, out.isCommunityFundContribution = true := by
  have hShape : fund = [] ∨ ∃ nValue, fund = [⟨nValue, contributionScript⟩] := by
    unfold fundOutputs at h
    dsimp only at h
    split at h
    case isFalse => exact .inl (some.inj h).symm
    case isTrue =>
      split at h
      case isFalse => exact .inr ⟨_, (some.inj h).symm⟩
      case isTrue =>
        split at h
        case isTrue => cases h
        case isFalse =>
          split at h
          · exact .inr ⟨_, (some.inj h).symm⟩
          · exact .inl (some.inj h).symm
  rcases hShape with rfl | ⟨nValue, rfl⟩
  · exact ⟨Nat.zero_le 1, fun out hMem => by cases hMem⟩
  · refine ⟨Nat.le_refl 1, fun out hMem => ?_⟩
    rw [mem_singleton.mp hMem]
    rfl

/-- All of it is what `ConnectBlock` takes off the reward. -/
theorem fundOutputs_value (hFits : ContributionFits node pindexPrev view)
    (h : fundOutputs node pindexPrev view nHeight = some fund) :
    (fund.map (·.nValue)).sum = contributionShare node.toEnv pindexPrev view nHeight := by
  unfold contributionShare
  by_cases hAcc : isCommunityFundAccumulationEnabled node.toEnv pindexPrev = true
  · rw [if_pos hAcc]
    rcases (fundOutputs_eq hFits hAcc h).2 with ⟨-, rfl⟩ | ⟨hNone, rfl⟩
    · simp
    · rw [hNone, Int.mul_zero]
      rfl
  · rw [if_neg hAcc]
    unfold fundOutputs at h
    rw [if_neg hAcc] at h
    cases h
    rfl

/-! ## The coinstake -/

/-- The coin age of a transaction depends on its inputs and its time. -/
def CoinAgeOfInputs (node : Node) : Prop :=
  ∀ view tx tx', tx.vin = tx'.vin → tx.nTime = tx'.nTime →
    node.getCoinAge view tx = node.getCoinAge view tx'

/-- What the wallet puts together at a height: the inputs, an empty output, the stake, the
shares, and the contribution. -/
structure StakeParts (node : Node) (pindexPrev : Chain) (nHeight : Nat) (view : CStateView)
    (nFees : Int) (tx : CTransaction) where
  kernel : StakeCoin
  nCoinAge : Nat
  script : CScript
  shares : List CTxOut
  fund : List CTxOut
  head : tx.vin.head? = some ⟨kernel.prevout⟩
  age : node.getCoinAge view tx = some nCoinAge
  contribution : fundOutputs node pindexPrev view nHeight = some fund
  vout : tx.vout = ⟨0, []⟩ :: stakeOutputs node script (inputsValue view tx.vin +
    getProofOfStakeReward node.toEnv nHeight nCoinAge nFees pindexPrev view -
      (shares.map (·.nValue)).sum) ++ shares ++ fund

/-- **The parts.** -/
theorem createCoinStake_parts (hWallet : w.AgreesWith view) (hAge : CoinAgeOfInputs node)
    (hTip : pindexPrev.head?.map (·.nHeight + 1) = some nHeight)
    (h : createCoinStake node w pindexPrev view nTime nSearchInterval nFees = some tx) :
    Nonempty (StakeParts node pindexPrev nHeight view nFees tx) := by
  unfold createCoinStake at h
  simp only [bind_eq_bind, bind_eq_some_iff, guard_eq_some', exists_const] at h
  obtain ⟨-, tip, hHead, coins, hSelect, ⟨kernel, n, script⟩, hKernel, -, nCoinAge, hCoinAge, -,
    shares, -, fund, hFund, -, hTx⟩ := h
  rw [hHead] at hTip
  cases hTip
  have hCoins := hWallet _ _ _ hSelect
  have hFirst : inputsValue view [⟨kernel.prevout⟩] = kernel.out.nValue := by
    rw [inputsValue, map_singleton, sum_singleton, hCoins kernel (findKernel_mem hKernel)]
    rfl
  obtain ⟨hValue, hHead⟩ := addInputs_value w node script (nTime - n) hCoins hFirst rfl
  cases hTx
  exact ⟨{
    kernel := kernel, nCoinAge := nCoinAge, script := script, shares := shares, fund := fund
    head := hHead
    age := by rw [← hCoinAge]; exact hAge _ _ _ rfl rfl
    contribution := hFund
    vout := by rw [hValue] }⟩

namespace StakeParts

variable {node : Node} {pindexPrev : Chain} {nHeight : Nat} {view : CStateView} {nFees : Int}
  {tx : CTransaction}

/-- The outputs besides the contribution. -/
def outs (parts : StakeParts node pindexPrev nHeight view nFees tx) : List CTxOut :=
  ⟨0, []⟩ :: stakeOutputs node parts.script (inputsValue view tx.vin +
    getProofOfStakeReward node.toEnv nHeight parts.nCoinAge nFees pindexPrev view -
      (parts.shares.map (·.nValue)).sum) ++ parts.shares

/-- They are worth the inputs and the reward. -/
theorem outs_value (parts : StakeParts node pindexPrev nHeight view nFees tx) :
    (parts.outs.map (·.nValue)).sum = inputsValue view tx.vin +
      getProofOfStakeReward node.toEnv nHeight parts.nCoinAge nFees pindexPrev view := by
  unfold outs
  rw [cons_append, map_cons, sum_cons, map_append, sum_append, stakeOutputs_value]
  dsimp only
  omega

theorem isCoinStake (parts : StakeParts node pindexPrev nHeight view nFees tx) :
    tx.isCoinStake = true := by
  obtain ⟨out, rest, hStake⟩ := stakeOutputs_ne_nil node parts.script (inputsValue view tx.vin +
    getProofOfStakeReward node.toEnv nHeight parts.nCoinAge nFees pindexPrev view -
      (parts.shares.map (·.nValue)).sum)
  have hVout := parts.vout
  rw [hStake] at hVout
  have hHead := parts.head
  cases hVin : tx.vin with
  | nil =>
    rw [hVin] at hHead
    cases hHead
  | cons txin vin =>
    rw [hVin] at hHead
    obtain rfl : txin = ⟨parts.kernel.prevout⟩ := some.inj hHead
    rw [CTransaction.isCoinStake, hVin, hVout]
    simp [parts.kernel.prevout_notNull, CTxOut.isEmpty]

/-- The wallet's transaction is no coinbase, so that its inputs count. -/
theorem getValueIn (parts : StakeParts node pindexPrev nHeight view nFees tx)
    (view' : CStateView) : view'.getValueIn tx = inputsValue view' tx.vin := by
  have hStake := parts.isCoinStake
  rw [CStateView.getValueIn, if_neg]
  · rfl
  · intro hCb
    rw [isCoinStake_of_isCoinBase hCb] at hStake
    cases hStake

theorem getValueOut (parts : StakeParts node pindexPrev nHeight view nFees tx) :
    tx.getValueOut = (parts.outs.map (·.nValue)).sum + (parts.fund.map (·.nValue)).sum := by
  rw [CTransaction.getValueOut, parts.vout, map_append, sum_append]
  rfl

/-- The contribution is the last output where one is due. -/
theorem pays (parts : StakeParts node pindexPrev nHeight view nFees tx)
    (hFits : ContributionFits node pindexPrev view)
    (hAcc : isCommunityFundAccumulationEnabled node.toEnv pindexPrev = true) :
    (tx.vout.getLast?).any (fun out => out.isCommunityFundContribution &&
      out.nValue == contributionDue node.toEnv pindexPrev view *
        contributionMultiplier node.toEnv pindexPrev view nHeight) = true ∨
      contributionMultiplier node.toEnv pindexPrev view nHeight ≤ 0 := by
  rcases (fundOutputs_eq hFits hAcc parts.contribution).2 with ⟨-, hFund⟩ | ⟨hNone, -⟩
  · refine .inl ?_
    rw [parts.vout, hFund, getLast?_concat, any_some, Bool.and_eq_true]
    exact ⟨rfl, beq_self_eq_true _⟩
  · exact .inr (Int.le_of_eq hNone)

end StakeParts

/-- The value of inputs that two views agree on. -/
theorem inputsValue_congr {view' : CStateView}
    (h : ∀ txin ∈ vin, view'.outputFor txin.prevout = view.outputFor txin.prevout) :
    inputsValue view' vin = inputsValue view vin := by
  unfold inputsValue
  rw [map_congr_left fun txin hMem => by rw [h txin hMem]]

/-- `ConnectBlock` finds the contribution. -/
theorem StakeParts.checkCoinStake_isOk {ctx : ConnectContext}
    (parts : StakeParts ctx.node ctx.pprev ctx.pindex.nHeight view nFees tx)
    (hFits : ContributionFits ctx.node ctx.pprev view) {st : ConnectState}
    (hConsensus : st.view.consensus = view.consensus) :
    ∃ st', checkCoinStake ctx tx st = .ok st' := by
  unfold checkCoinStake
  by_cases hAcc : isCommunityFundAccumulationEnabled ctx.node.toEnv ctx.pprev = true
  · have hPays := parts.pays hFits hAcc
    have hDivides := (fundOutputs_eq hFits hAcc parts.contribution).1
    simp only [contributionDue, contributionMultiplier, getFundContributionPerBlock,
      ← getConsensusParameter_congr hConsensus] at hPays hDivides
    rw [if_pos hAcc]
    refine ⟨_, ConnectState.ensure_ok.mpr ⟨?_, rfl⟩⟩
    simp only [contributionDue, contributionMultiplier, getFundContributionPerBlock,
      Bool.and_eq_true, Bool.or_eq_true, Bool.not_eq_true', bne_iff_ne, decide_eq_true_eq]
    refine ⟨?_, hPays⟩
    rcases Bool.eq_false_or_eq_true
      (ctx.node.isActive .communityFundAccumulationSpread ctx.pprev) with hOn | hOff
    · exact .inr (hDivides hOn)
    · exact .inl hOff
  · rw [if_neg hAcc]
    exact ⟨_, rfl⟩

/-- **The wallet's coinstakes.** On the tip and the view it was made for, with the same fees, a
coinstake from `CreateCoinStake` passes the check of the contribution, its reward is not above
`GetProofOfStakeReward`, and its outputs besides the contribution are worth exactly its inputs
and that reward. -/
theorem createCoinStake_accepted {ctx : ConnectContext} {w : StakingWallet} {view : CStateView}
    {nTime nSearchInterval : Nat} {nFees : Int} {tx : CTransaction}
    (hWallet : w.AgreesWith view) (hAge : CoinAgeOfInputs ctx.node)
    (hFits : ContributionFits ctx.node ctx.pprev view)
    (hTip : ctx.pprev.head?.map (·.nHeight + 1) = some ctx.pindex.nHeight)
    (h : createCoinStake ctx.node w ctx.pprev view nTime nSearchInterval nFees = some tx) :
    ∃ nCoinAge, ctx.node.getCoinAge view tx = some nCoinAge ∧ tx.isCoinStake = true ∧
      (∀ st : ConnectState, st.view.consensus = view.consensus →
        (∀ txin ∈ tx.vin, st.view.outputFor txin.prevout = view.outputFor txin.prevout) →
        ∃ st', checkCoinStake ctx tx st = .ok st' ∧
          ∀ view' : CStateView, view'.consensus = view.consensus → st'.nStakeReward ≤
            getProofOfStakeReward ctx.node.toEnv ctx.pindex.nHeight nCoinAge nFees ctx.pprev
              view') ∧
      ∃ outs fund, tx.vout = outs ++ fund ∧ fund.length ≤ 1 ∧
        (∀ out ∈ fund, out.isCommunityFundContribution = true) ∧
        (outs.map (·.nValue)).sum = view.getValueIn tx +
          getProofOfStakeReward ctx.node.toEnv ctx.pindex.nHeight nCoinAge nFees ctx.pprev view := by
  obtain ⟨parts⟩ := createCoinStake_parts hWallet hAge hTip h
  have hValue := parts.outs_value
  obtain ⟨hOne, hContribution⟩ := fundOutputs_contribution parts.contribution
  refine ⟨parts.nCoinAge, parts.age, parts.isCoinStake, ?_, parts.outs, parts.fund, parts.vout,
    hOne, hContribution, ?_⟩
  · intro st hConsensus hOutputs
    obtain ⟨st', hOk⟩ := parts.checkCoinStake_isOk hFits hConsensus
    refine ⟨st', hOk, fun view' hSame => ?_⟩
    -- what `ConnectBlock` calls the stake reward is the reward itself
    rw [getProofOfStakeReward_congr hSame, checkCoinStake_ok hOk, parts.getValueOut,
    parts.getValueIn, inputsValue_congr hOutputs,
      contributionShare_congr hConsensus, fundOutputs_value hFits parts.contribution]
    dsimp only
    omega
  · rw [parts.getValueIn, hValue]

/-- The first output of `coldFunding`. -/
def coldCoin : StakeCoin := ⟨⟨1, 0⟩, ⟨600, coldScript⟩, 0, rfl⟩

/-- A wallet that stakes it and leaves a tenth of the reward to a pool. -/
def poolWallet : StakingWallet where
  nBalance := 1000
  nReserveBalance := 0
  selectCoinsForStaking _ _ := some [coldCoin]
  checkKernel _ _ := true
  kernelOutput := some
  kernelAddress _ := ""
  decodeAddress _ := some []
  scriptForAddress _ := [0x51]
  getReal _ := none
  poolAddress := ""
  poolFee := 10
  stakingAddress := ""
  canSign _ := true
  hashOf _ _ _ _ := 2

/-- A block at height 2880, where a contribution falls due. -/
def stakingContext : ConnectContext :=
  connectContext coldNode (mixedBlock coldCoinstake) ⟨1000, 2880, 5, 0⟩ [⟨999, 2879, 4, 0⟩] []

/-- A pool stakes for a cold staking address. -/
theorem createCoinStake_accepted_pool : ∃ tx,
    createCoinStake coldNode poolWallet stakingContext.pprev coldView 5 1 0 = some tx ∧
    tx.vout.length = 4 ∧ ∃ outs fund, tx.vout = outs ++ fund ∧ fund.length ≤ 1 ∧
      (outs.map (·.nValue)).sum = coldView.getValueIn tx +
        getProofOfStakeReward coldNode.toEnv 2880 0 0 stakingContext.pprev coldView := by
  obtain ⟨tx, hTx, hLength⟩ : ∃ tx, createCoinStake coldNode poolWallet stakingContext.pprev coldView 5
      1 0 = some tx ∧ tx.vout.length = 4 := by
    decide +kernel
  have hWallet : poolWallet.AgreesWith coldView := by
    intro target nTime coins hCoins coin hMem
    cases hCoins
    rw [mem_singleton.mp hMem]
    decide +kernel
  have hAge : CoinAgeOfInputs stakingContext.node := fun _ _ _ _ _ => rfl
  have hFits : ContributionFits stakingContext.node stakingContext.pprev coldView :=
    ⟨by decide +kernel, by decide +kernel, by decide +kernel⟩
  obtain ⟨nCoinAge, hCoinAge, -, -, outs, fund, hVout, hOne, -, hSum⟩ :=
    createCoinStake_accepted hWallet hAge hFits rfl hTx
  cases hCoinAge
  exact ⟨tx, hTx, hLength, outs, fund, hVout, hOne, hSum⟩

end Electrum
