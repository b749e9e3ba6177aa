import Electrum.Validation.Finality
import Electrum.Validation.Values

/-!
# Supply

How many coins a connected block can create.  `connectTxs_ledger` keeps the books over the
loop of `ConnectBlock`; the bounds on proof-of-stake and proof-of-work blocks add to it the
check of the stake reward and the coinbase payout loop.

Main results:
* `connectTxs_ledger` — outputs, spent outputs, fees and coinstakes over the loop
* `connectBlock_pos_supply` — the bound on a proof-of-stake block
* `connectBlock_pow_supply` — the bound on a proof-of-work block without gaining coinstakes
* `connectBlock_pow_inflates` — a coinstake late in a proof-of-work block escapes all checks
-/

namespace Electrum

open List Option

/-- The gains of the coinstakes in a list of transactions, in order, over the coins of a view.
A gain is what the coinstake pays out beyond what it spends. -/
def stakeGains (nHeight : Nat) : CStateView → List CTransaction → List Int
  | _, [] => []
  | view, tx :: rest =>
    let gains := ((updateCoins view tx nHeight).map fun r => stakeGains nHeight r.1 rest).getD []
    if tx.isCoinStake then (tx.getValueOut - view.getValueIn tx) :: gains else gains

theorem stakeGains_eq_nil (nHeight : Nat) (view : CStateView) (txs : List CTransaction)
    (h : ∀ tx ∈ txs, tx.isCoinStake = false) : stakeGains nHeight view txs = [] := by
  induction txs generalizing view with
  | nil => rfl
  | cons tx rest ih =>
    have hRest : ∀ v, stakeGains nHeight v rest = [] :=
      fun v => ih v (fun t ht => h t (mem_cons_of_mem _ ht))
    simp only [stakeGains, h tx mem_cons_self, hRest]
    cases updateCoins view tx nHeight <;> rfl

/-! ## What the checks of a transaction give -/

variable {tx : CTransaction} {view other : CStateView}

theorem checkTransaction_nodup (h : checkTransaction tx = true) :
    (tx.vin.map (·.prevout)).Nodup := by
  simp only [checkTransaction, Bool.and_eq_true, decide_eq_true_eq] at h
  exact h.1.2

/-- `GetValueIn` reads the coins alone. -/
theorem getValueIn_congr (h : view.coins = other.coins)
    (tx : CTransaction) : view.getValueIn tx = other.getValueIn tx := by
  simp only [CStateView.getValueIn, CStateView.outputFor, h]

/-- The fund's share reads the parameters alone. -/
theorem contributionShare_congr (h : view.consensus = other.consensus)
    (env : Env) (pprev : Chain) (nHeight : Nat) :
    contributionShare env pprev view nHeight = contributionShare env pprev other nHeight := by
  simp only [contributionShare, contributionDue, contributionMultiplier,
    getFundContributionPerBlock, getConsensusParameter_congr h]

theorem getProofOfStakeReward_congr
    (h : view.consensus = other.consensus) (env : Env) (nHeight nCoinAge : Nat) (nFees : Int)
    (pprev : Chain) :
    getProofOfStakeReward env nHeight nCoinAge nFees pprev view =
      getProofOfStakeReward env nHeight nCoinAge nFees pprev other := by
  simp only [getProofOfStakeReward, getStakingRewardPerBlock, getFundContributionPerBlock,
    getConsensusParameter_congr h]

/-- Fees add to the reward. -/
theorem getProofOfStakeReward_fees (env : Env) (nHeight nCoinAge : Nat) (nFees : Int)
    (pprev : Chain) (view : CStateView) :
    getProofOfStakeReward env nHeight nCoinAge nFees pprev view =
      getProofOfStakeReward env nHeight nCoinAge 0 pprev view + nFees := by
  simp [getProofOfStakeReward]

/-! ## The books over the loop -/

/-- What one turn of the loop does to the money in its state: the parameters stay, the undo
data is worth the inputs, and the fees or the stake reward change as `checkValues` says. -/
structure TxLedger (ctx : ConnectContext) (tx : CTransaction) (i : Nat)
    (st st' : ConnectState) : Prop where
  consensus : st'.view.consensus = st.view.consensus
  coins : (updateCoins st.view tx ctx.pindex.nHeight).map (·.1.coins) = some st'.view.coins
  spent : blockSpentValue st'.vtxundo = blockSpentValue st.vtxundo +
    if i = 0 then 0 else st.view.getValueIn tx
  values :
    (tx.isCoinBase = true ∧ st'.nFees = st.nFees ∧ st'.nStakeReward = st.nStakeReward) ∨
    (tx.isCoinBase = false ∧ tx.isCoinStake = true ∧ st'.nFees = st.nFees ∧
      st'.nStakeReward = tx.getValueOut - st.view.getValueIn tx -
        contributionShare ctx.node.toEnv ctx.pprev st.view ctx.pindex.nHeight) ∨
    (tx.isCoinBase = false ∧ tx.isCoinStake = false ∧ tx.getValueOut ≤ st.view.getValueIn tx ∧
      st'.nFees = st.nFees + (st.view.getValueIn tx - tx.getValueOut) ∧
      st'.nStakeReward = st.nStakeReward)

variable {ctx : ConnectContext} {st st' : ConnectState} {node : Node} {pindex : CBlockIndex}
  {pprev : Chain} {coinbase : CTransaction}

/-- **One turn** of the loop. -/
theorem connectTx_ledger
    {i : Nat} (hTx : checkTransaction tx = true) (h : connectTx ctx st (tx, i) = .ok st') :
    TxLedger ctx tx i st st' := by
  obtain ⟨-, undo, hUpdate, hUndo⟩ := connectTx_coins h
  have hSpent := spentValue_updateCoins (checkTransaction_nodup hTx) hUpdate
  obtain ⟨st1, st2, view1, view2, _, hVotes, -, hValues, hObject, hCoins, rfl⟩ := connectTx_ok h
  obtain ⟨lists, recorded, votes, rfl⟩ := takeVotes_ok hVotes
  refine ⟨?_, by rw [hUpdate]; rfl, ?_, ?_⟩
  · obtain ⟨_, _, _, _, hFrame⟩ := (createObject_created hObject).frame
    have hConsensus := congrArg CStateView.consensus (updateCoins_frame hCoins)
    rw [hFrame, (checkValues_kept hValues).1] at hConsensus
    exact hConsensus
  · rw [hUndo]
    by_cases hi : i = 0
    · simp [hi]
    · simp [hi, blockSpentValue, hSpent]
  · rcases checkValues_ok hValues with ⟨hCb, rfl⟩ | ⟨hCb, hCs, rfl⟩ | ⟨hCb, hCs, hLe, rfl⟩
    · exact .inl ⟨hCb, rfl, rfl⟩
    · exact .inr (.inl ⟨hCb, hCs, rfl, rfl⟩)
    · exact .inr (.inr ⟨hCb, hCs, hLe, rfl, rfl⟩)

/-- **The books.** Over the transactions after the coinbase, what they pay out beyond what they
spend is what their coinstakes gain, less the fees; the last coinstake sets the stake reward. -/
theorem connectTxs_ledger {txs : List CTransaction} {k : Nat} (view : CStateView) (hk : 0 < k)
    (hCoins : view.coins = st.view.coins)
    (hTxs : ∀ tx ∈ txs, checkTransaction tx = true ∧ tx.isCoinBase = false)
    (h : (txs.zipIdx k).foldlM (connectTx ctx) st = .ok st') :
    st'.view.consensus = st.view.consensus ∧ st.nFees ≤ st'.nFees ∧
    (txs.map CTransaction.getValueOut).sum - blockSpentValue st'.vtxundo =
      (stakeGains ctx.pindex.nHeight view txs).sum - blockSpentValue st.vtxundo -
        (st'.nFees - st.nFees) ∧
    st'.nStakeReward = ((stakeGains ctx.pindex.nHeight view txs).getLast?.map fun gain =>
      gain - contributionShare ctx.node.toEnv ctx.pprev st.view ctx.pindex.nHeight).getD
        st.nStakeReward := by
  induction txs generalizing k st view with
  | nil =>
    cases h
    exact ⟨rfl, le_refl _, by simp [stakeGains], rfl⟩
  | cons tx rest ih =>
    rw [zipIdx_cons, foldlM_cons, Except.bind_eq_ok] at h
    obtain ⟨st1, hStep, hRest⟩ := h
    have hTx := hTxs tx mem_cons_self
    obtain ⟨hConsensus, hUpd, hSpent, hValues⟩ := connectTx_ledger hTx.1 hStep
    -- the coins the rest of the list is read over
    rw [map_eq_some_iff] at hUpd
    obtain ⟨r, hr, hrCoins⟩ := hUpd
    have hOther := updateCoins_of_coins hCoins hr
    obtain ⟨hC, hF, hSum, hReward⟩ := ih { view with coins := r.1.coins }
      (Nat.succ_pos k) hrCoins (fun t ht => hTxs t (mem_cons_of_mem _ ht)) hRest
    have hGains : stakeGains ctx.pindex.nHeight view (tx :: rest) =
        if tx.isCoinStake then (tx.getValueOut - st.view.getValueIn tx) ::
          stakeGains ctx.pindex.nHeight { view with coins := r.1.coins } rest
        else stakeGains ctx.pindex.nHeight { view with coins := r.1.coins } rest := by
      simp only [stakeGains, hOther, map_some, getD_some, getValueIn_congr hCoins]
    rw [contributionShare_congr hConsensus] at hReward
    rw [hGains, map_cons, sum_cons]
    generalize stakeGains ctx.pindex.nHeight { view with coins := r.1.coins } rest = gains
      at hSum hReward
    rcases hValues with ⟨hCb, -⟩ | ⟨-, hCs, hFees, hStake⟩ | ⟨-, hCs, hLe, hFees, hStake⟩
    · rw [hTx.2] at hCb
      cases hCb
    · rw [if_pos hCs, sum_cons]
      refine ⟨hC.trans hConsensus, by omega, by omega, ?_⟩
      rw [hReward, hStake]
      cases gains with
      | nil => rfl
      | cons gain gains => simp [getLast?_cons]
    · rw [if_neg (by simp [hCs])]
      refine ⟨hC.trans hConsensus, by omega, by omega, ?_⟩
      rw [hReward, hStake]

/-! ## Blocks -/

/-- The payout loop touches payment requests only. -/
theorem checkCoinbase_frame {reward : Int} {r : CoinbaseState}
    (h : checkCoinbase node pindex pprev reward coinbase view = some r) :
    r.view = { view with paymentRequests := r.view.paymentRequests } := by
  refine foldlM_option_invariant
    (fun _ (st : CoinbaseState) =>
      st.view = { view with paymentRequests := st.view.paymentRequests })
    coinbase.vout (b := ⟨view, 0, []⟩) (r := r) rfl ?_ h
  intro done out rest st st' _ hP hStep
  rcases coinbaseStep_cases hStep with ⟨-, rfl⟩ | ⟨-, prid, prequest, -, rfl⟩
  · exact hP
  · rw [hP]
    rfl

theorem isCoinStake_of_isCoinBase (h : tx.isCoinBase = true) : tx.isCoinStake = false := by
  unfold CTransaction.isCoinBase at h
  split at h
  case h_1 i hVin =>
    unfold CTransaction.isCoinStake
    split <;> simp_all
  case h_2 => cases h

/-- A coinbase adds its outputs to the coins and gains nothing. -/
theorem stakeGains_coinbase (h : coinbase.isCoinBase = true)
    {nHeight : Nat} {rest : List CTransaction} :
    stakeGains nHeight view (coinbase :: rest) =
      stakeGains nHeight (view.setCoins coinbase.hash (.fromTx coinbase nHeight)) rest := by
  simp [stakeGains, isCoinStake_of_isCoinBase h, updateCoins, h]

/-- **The books of a block.** What a block creates is its coinbase and the gains of its
coinstakes, less the fees that the loop collected. -/
theorem ConnectRun.created {block : CBlock}
    {fund : Fund} {recorded : RecordedVotes} {r : Connected} (hCheck : checkBlock node block = true)
    (run : ConnectRun node block pindex pprev fund recorded view r) :
    0 ≤ run.st.nFees ∧ run.cb.view.consensus = view.consensus ∧
    blockValueOut block - blockSpentValue r.vtxundo = run.coinbase.getValueOut +
      (stakeGains pindex.nHeight view block.vtx).sum - run.st.nFees ∧
    run.st.nStakeReward = ((stakeGains pindex.nHeight view block.vtx).getLast?.map fun gain =>
      gain - contributionShare node.toEnv pprev view pindex.nHeight).getD 0 := by
  obtain ⟨coinbase, rest, hVtx, hCb, hTx, hTxs, -⟩ := checkBlock_vtx hCheck
  have hHead : run.coinbase = coinbase := by
    have hHead := run.head
    rw [hVtx] at hHead
    exact (some.inj hHead).symm
  have hLoop := run.loop
  rw [hVtx, zipIdx_cons, foldlM_cons, Except.bind_eq_ok] at hLoop
  obtain ⟨st1, hFirst, hRest⟩ := hLoop
  obtain ⟨hConsensus, hUpd, hSpent, hValues⟩ := connectTx_ledger hTx hFirst
  rw [map_eq_some_iff] at hUpd
  obtain ⟨upd, hUpd, hCoins⟩ := hUpd
  obtain ⟨hC, hFees, hSum, hReward⟩ :=
    connectTxs_ledger upd.1 (Nat.succ_pos 0) hCoins hTxs hRest
  -- the coinbase itself leaves the books as they are
  have hStart : st1.nFees = 0 ∧ st1.nStakeReward = 0 := by
    rcases hValues with ⟨-, hF, hR⟩ | ⟨hNot, -⟩ | ⟨hNot, -⟩
    · exact ⟨hF, hR⟩
    · rw [hCb] at hNot
      cases hNot
    · rw [hCb] at hNot
      cases hNot
  have hZero : blockSpentValue st1.vtxundo = 0 := hSpent
  have hGains : stakeGains pindex.nHeight view block.vtx =
      stakeGains pindex.nHeight upd.1 rest := by
    have hUpd : updateCoins view coinbase pindex.nHeight = some upd := hUpd
    rw [updateCoins, if_pos hCb] at hUpd
    rw [hVtx, stakeGains_coinbase hCb, ← some.inj hUpd]
  have hView : run.cb.view.consensus = run.st.view.consensus := by
    rw [checkCoinbase_frame run.payout]
  have hInit : st1.view.consensus = view.consensus := hConsensus
  have hUndo : r.vtxundo = run.st.vtxundo := congrArg Connected.vtxundo run.result
  rw [hStart.1] at hFees hSum
  refine ⟨hFees, (hView.trans hC).trans hInit, ?_, ?_⟩
  · have hOut : blockValueOut block =
        coinbase.getValueOut + (rest.map CTransaction.getValueOut).sum := by
      simp [blockValueOut, hVtx]
    have hSum : (rest.map CTransaction.getValueOut).sum - blockSpentValue run.st.vtxundo =
        (stakeGains pindex.nHeight upd.1 rest).sum - blockSpentValue st1.vtxundo -
          (run.st.nFees - 0) := hSum
    rw [hGains, hHead, hUndo]
    omega
  · rw [hGains, hReward, hStart.2, contributionShare_congr hInit]
    rfl

/-- **Proof-of-stake supply.** The coins a proof-of-stake block creates are bounded by the
stake reward without fees, the fund's share and the payment requests its coinbase pays. -/
theorem connectBlock_pos_supply {node : Node} {block : CBlock} {pindex : CBlockIndex}
    {pprev : Chain} {fund : Fund} {recorded : RecordedVotes} {view : CStateView} {r : Connected}
    (hGenesis : block.hash = node.params.genesis.hash → block = node.params.genesis)
    (hPos : block.isProofOfStake = true)
    (h : connectBlock node block pindex pprev fund recorded view = .ok r) :
    ∃ nCoinAge, (block.vtx[1]?).bind (node.getCoinAge view) = some nCoinAge ∧
      blockValueOut block - blockSpentValue r.vtxundo ≤
        getProofOfStakeReward node.toEnv pindex.nHeight nCoinAge 0 pprev view +
          contributionShare node.toEnv pprev view pindex.nHeight + matchedValue r.matched := by
  obtain ⟨hCheck, ⟨hHash, -⟩ | ⟨-, ⟨run⟩⟩⟩ := connectBlock_ok h
  · -- the genesis block has one transaction
    have hSingle := node.params.genesis_single
    rw [← hGenesis hHash] at hSingle
    unfold CBlock.isProofOfStake at hPos
    split at hPos
    case h_1 hVtx => simp [hVtx] at hSingle
    case h_2 => cases hPos
  · refine ⟨run.nCoinAge, run.coinAge hPos, ?_⟩
    obtain ⟨-, hConsensus, hCreated, hStake⟩ := run.created hCheck
    obtain ⟨coinbase, rest, hVtx, hCb, hTx, -, hOthers⟩ := checkBlock_vtx hCheck
    -- the only coinstake is the second transaction
    have hGains : ∃ gain, stakeGains pindex.nHeight view block.vtx = [gain] := by
      cases rest with
      | nil => simp [CBlock.isProofOfStake, hVtx] at hPos
      | cons coinstake rest =>
        have hCs : coinstake.isCoinStake = true := by
          simpa [CBlock.isProofOfStake, hVtx] using hPos
        have hRest : ∀ v, stakeGains pindex.nHeight v rest = [] :=
          fun v => stakeGains_eq_nil pindex.nHeight v rest (hOthers hPos)
        rw [hVtx, stakeGains_coinbase hCb]
        generalize view.setCoins coinbase.hash (.fromTx coinbase pindex.nHeight) = v
        refine ⟨coinstake.getValueOut - v.getValueIn coinstake, ?_⟩
        simp only [stakeGains, hCs, hRest, if_true]
        cases updateCoins v coinstake pindex.nHeight <;> rfl
    obtain ⟨gain, hGain⟩ := hGains
    have hReward := run.reward hPos
    rw [getProofOfStakeReward_congr hConsensus, getProofOfStakeReward_fees] at hReward
    have hNoReward : nPOWBlockReward block pindex.nHeight run.st.nFees = 0 := by
      simp [nPOWBlockReward, CBlock.isProofOfWork, hPos]
    have hPayout := run.payout
    rw [hNoReward] at hPayout
    have hBound := checkCoinbase_bound (le_refl 0) hPayout
    have hMatched : r.matched = run.cb.matched := congrArg Connected.matched run.result
    rw [hGain] at hCreated hStake
    rw [hMatched]
    simp only [sum_cons, sum_nil, getLast?_singleton, Option.map_some,
      Option.getD_some] at hCreated hStake
    omega

-- a node without deployments, and two outputs worth 100 to spend
def supplyNode : Node := .trusting (fun _ _ => false) ∅ [⟨11, 1, 0, [], [⟨100, [0x51]⟩], ""⟩]

def supplyView : CStateView :=
  let coins : CCoins := ⟨false, false, [some ⟨100, [0x51]⟩], 1, 1⟩
  { CStateView.empty with coins := (∅ : Map UInt256 CCoins).insert 11 coins |>.insert 12 coins }

/-- The node of `fundRequest`, with a coinbase text that lists it and its proposal's address. -/
def payNode : Node :=
  { fundNode with
    mapBlockIndex := fundNode.mapBlockIndex.insert 160 (smallBlock 160)
    readJSON := fun _ => some (.varr [.vstr (UInt256.getHex 50)])
    extractAddress := fun _ => some "owner" }

/-- More than fifty blocks after `fundRequest` was accepted. -/
def payState : ChainState :=
  { fundState 7500 with chain := ((range 5).map fun i => smallBlock (i + 155)).reverse }

/-- It pays a fixed reward for a block and a share of it to the fund. -/
def stakingNode : Node :=
  { payNode with
    isActive := fun pos _ => pos ∈ [.communityFund, .communityFundAmountV2, .staticReward]
    getTransaction := supplyNode.getTransaction }

def stakingView : CStateView := { payState.view with coins := supplyView.coins }

/-- A block whose coinbase pays the request, whose coinstake earns the reward and the fee of the
third transaction and pays the fund. -/
def stakedBlock : CBlock := ⟨160, 160, 0, [
  ⟨1160, 1, 160, [⟨⟨0, 2 ^ 32 - 1⟩⟩], [⟨0, []⟩, ⟨5, [0x51]⟩], ""⟩,
  ⟨102, 1, 160, [⟨⟨11, 0⟩⟩], [⟨0, []⟩, ⟨90000130, [0x51]⟩, ⟨10000000, [OP_RETURN, OP_CFUND]⟩], ""⟩,
  ⟨103, 1, 160, [⟨⟨12, 0⟩⟩], [⟨70, [0x51]⟩], ""⟩]⟩

/-- It creates the reward, the share of the fund and the five coins of the request, and no coin
more. -/
theorem connectBlock_stakedBlock_supply :
    ∃ r, connectBlock stakingNode stakedBlock (smallBlock 160) payState.chain payState.fund .empty
        stakingView = .ok r ∧
      blockValueOut stakedBlock - blockSpentValue r.vtxundo = 90000000 + 10000000 + 5 ∧
      ∃ nCoinAge, (stakedBlock.vtx[1]?).bind (stakingNode.getCoinAge stakingView) = some nCoinAge ∧
        blockValueOut stakedBlock - blockSpentValue r.vtxundo ≤
          getProofOfStakeReward stakingNode.toEnv 160 nCoinAge 0 payState.chain stakingView +
            contributionShare stakingNode.toEnv payState.chain stakingView 160 +
            matchedValue r.matched := by
  obtain ⟨r, hr, hCreated⟩ : ∃ r, connectBlock stakingNode stakedBlock (smallBlock 160) payState.chain
      payState.fund .empty stakingView = .ok r ∧
      blockValueOut stakedBlock - blockSpentValue r.vtxundo = 90000000 + 10000000 + 5 := by
    decide +kernel
  exact ⟨r, hr, hCreated, connectBlock_pos_supply (by decide +kernel) (by decide) hr⟩

/-- **Proof-of-work supply.** The coins a proof-of-work block creates are bounded by the
subsidy and the payment requests its coinbase pays, if none of its coinstakes gains. -/
theorem connectBlock_pow_supply {node : Node} {block : CBlock} {pindex : CBlockIndex}
    {pprev : Chain} {fund : Fund} {recorded : RecordedVotes} {view : CStateView} {r : Connected}
    (hGenesis : block.hash = node.params.genesis.hash → block = node.params.genesis)
    (hPow : block.isProofOfStake = false)
    (hGains : ∀ gain ∈ stakeGains pindex.nHeight view block.vtx, gain ≤ 0)
    (h : connectBlock node block pindex pprev fund recorded view = .ok r) :
    blockValueOut block - blockSpentValue r.vtxundo ≤
      getBlockSubsidy pindex.nHeight + matchedValue r.matched := by
  have hSubsidy : 0 ≤ getBlockSubsidy pindex.nHeight := by
    unfold getBlockSubsidy COIN
    split <;> decide
  obtain ⟨hCheck, ⟨hHash, rfl⟩ | ⟨-, ⟨run⟩⟩⟩ := connectBlock_ok h
  · -- the genesis block is not connected, and worth nothing
    have hWorth : blockValueOut block = 0 := by
      rw [hGenesis hHash]
      exact node.params.genesis_worthless
    rw [hWorth]
    simpa [blockSpentValue, matchedValue] using hSubsidy
  · obtain ⟨hFees, -, hCreated, -⟩ := run.created hCheck
    have hReward : nPOWBlockReward block pindex.nHeight run.st.nFees =
        run.st.nFees + getBlockSubsidy pindex.nHeight := by
      simp [nPOWBlockReward, CBlock.isProofOfWork, hPow]
    have hBound := checkCoinbase_bound (by omega) run.payout
    have hMatched : r.matched = run.cb.matched := congrArg Connected.matched run.result
    have hSum : (stakeGains pindex.nHeight view block.vtx).sum ≤ 0 := by
      simpa using sum_le_card_nsmul _ 0 hGains
    rw [hMatched]
    omega

/-- A proof-of-work block with fees and no coinstake. -/
def minedBlock : CBlock := ⟨1000, 5, 0, [⟨101, 1, 5, [⟨⟨0, 2 ^ 32 - 1⟩⟩], [⟨30, [0x51]⟩], ""⟩,
  ⟨102, 1, 5, [⟨⟨11, 0⟩⟩], [⟨70, [0x51]⟩], ""⟩]⟩

theorem connectBlock_minedBlock_supply :
    ∃ r, connectBlock supplyNode minedBlock ⟨1000, 5, 5, 0⟩ [⟨999, 4, 4, 0⟩] ⟨0, 0⟩ .empty
        supplyView = .ok r ∧
      blockValueOut minedBlock - blockSpentValue r.vtxundo ≤
        getBlockSubsidy 5 + matchedValue r.matched := by
  obtain ⟨r, hr, -⟩ : ∃ r, connectBlock supplyNode minedBlock ⟨1000, 5, 5, 0⟩ [⟨999, 4, 4, 0⟩] ⟨0, 0⟩
      .empty supplyView = .ok r ∧ True := by
    decide +kernel
  exact ⟨r, hr, connectBlock_pow_supply (by decide +kernel) (by decide) (by decide +kernel) hr⟩

/-- The same block with a coinstake as its third transaction, which spends 100 and pays out
1000 coins. -/
def inflatedBlock : CBlock := { minedBlock with vtx := minedBlock.vtx ++ [
  ⟨103, 1, 5, [⟨⟨12, 0⟩⟩], [⟨0, []⟩, ⟨1000 * COIN, [0x51]⟩], ""⟩] }

/-- A coinstake behind an ordinary transaction does not make the block proof-of-stake, so its
reward is held against nothing. -/
theorem connectBlock_pow_inflates :
    inflatedBlock.isProofOfStake = false ∧
    ∃ r, connectBlock supplyNode inflatedBlock ⟨1000, 5, 5, 0⟩ [⟨999, 4, 4, 0⟩] ⟨0, 0⟩ .empty
        supplyView = .ok r ∧
      getBlockSubsidy 5 + matchedValue r.matched <
        blockValueOut inflatedBlock - blockSpentValue r.vtxundo := by
  decide +kernel

end Electrum
