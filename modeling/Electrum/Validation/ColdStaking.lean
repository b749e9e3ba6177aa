import Electrum.Validation.Supply

/-!
# Cold staking without the pool fee

`CheckProofOfStake` compares all outputs of the coinstake but the last with the kernel's script,
trusting that the last one is the contribution to the fund, and `ConnectBlock` requires that
contribution only at some heights.  This module puts the two together.

Main results:
* `ConnectRun.coinstake` — the turn of the loop that checks the coinstake
* `coldStake_kept` — when the coins stay with their script
* `coldStake_leaves` — a block in which they do not
-/

namespace Electrum

open List Bool Electrum.Except

/-- The coinstake at this height owes a contribution to the fund. -/
def fundDue (env : Env) (pprev : Chain) (view : CStateView) (nHeight : Nat) : Bool :=
  isCommunityFundAccumulationEnabled env pprev &&
    decide (0 < contributionMultiplier env pprev view nHeight)

variable {view : CStateView}

theorem fundDue_congr {other : CStateView} (h : view.consensus = other.consensus) (env : Env)
    (pprev : Chain) (nHeight : Nat) :
    fundDue env pprev view nHeight = fundDue env pprev other nHeight := by
  simp only [fundDue, contributionMultiplier, getConsensusParameter_congr h]

/-- The last output of a coinstake that owes a contribution. -/
theorem checkCoinStake_pays {ctx : ConnectContext} {tx : CTransaction} {st st' : ConnectState}
    (h : checkCoinStake ctx tx st = .ok st')
    (hDue : fundDue ctx.node.toEnv ctx.pprev st.view ctx.pindex.nHeight = true) :
    ∃ out, tx.vout.getLast? = some out ∧ out.isCommunityFundContribution = true := by
  rw [fundDue, and_eq_true, decide_eq_true_eq] at hDue
  unfold checkCoinStake at h
  rw [if_pos hDue.1] at h
  obtain ⟨hChecks, -⟩ := ConnectState.ensure_ok.mp h
  simp only [and_eq_true, or_eq_true, decide_eq_true_eq] at hChecks
  rcases hChecks.2 with hPaid | hNone
  · obtain ⟨out, hLast, hOut⟩ := (Option.any_eq_true _ _).mp hPaid
    rw [and_eq_true] at hOut
    exact ⟨out, hLast, hOut.1⟩
  · omega

/-- **The coinstake's turn.** The second transaction of a proof-of-stake block is checked by
`checkCoinStake` under the parameters of the view before the block. -/
theorem ConnectRun.coinstake {node : Node} {block : CBlock} {pindex : CBlockIndex} {pprev : Chain}
    {fund : Fund} {recorded : RecordedVotes} {r : Connected}
    (hCheck : checkBlock node block = true) (hPos : block.isProofOfStake = true)
    (run : ConnectRun node block pindex pprev fund recorded view r) :
    ∃ coinstake st st', block.vtx[1]? = some coinstake ∧ coinstake.isCoinStake = true ∧
      st.view.consensus = view.consensus ∧
      checkCoinStake (connectContext node block pindex pprev run.stakerScript) coinstake st =
        .ok st' := by
  obtain ⟨coinbase, rest, hVtx, -, hTx, hTxs, -⟩ := checkBlock_vtx hCheck
  cases rest with
  | nil =>
    rw [CBlock.isProofOfStake, hVtx] at hPos
    cases hPos
  | cons coinstake rest =>
    have hStake : coinstake.isCoinStake = true := by
      rwa [CBlock.isProofOfStake, hVtx] at hPos
    have hLoop := run.loop
    rw [hVtx, zipIdx_cons, foldlM_cons, bind_eq_ok] at hLoop
    obtain ⟨st1, hFirst, hLoop⟩ := hLoop
    rw [zipIdx_cons, foldlM_cons, bind_eq_ok] at hLoop
    obtain ⟨st2, hSecond, -⟩ := hLoop
    have hConsensus := (connectTx_ledger hTx hFirst).consensus
    obtain ⟨st3, st4, -, -, -, hVotes, -, hValues, -⟩ := connectTx_ok hSecond
    obtain ⟨lists, recorded', votes, rfl⟩ := takeVotes_ok hVotes
    -- the inputs are there, and the reward is that of a coinstake
    unfold checkValues at hValues
    rw [if_neg (by simp [(hTxs coinstake mem_cons_self).2]), bind_eq_ok] at hValues
    obtain ⟨st5, hInputs, hValues⟩ := hValues
    obtain ⟨-, rfl⟩ := ConnectState.ensure_ok.mp hInputs
    rw [bind_eq_ok] at hValues
    obtain ⟨st6, hReward, -⟩ := hValues
    unfold feeOrReward at hReward
    rw [if_pos hStake] at hReward
    exact ⟨coinstake, st1.withVotes lists recorded' votes, st6, by rw [hVtx]; rfl, hStake,
      hConsensus, hReward⟩

/-- The outputs that `CheckProofOfStake` compares with the kernel, without the pool fee. -/
theorem checkProofOfStake_middle {node : Node} {pindexPrev : Chain}
    {tx : CTransaction} {kernel : CTxIn} {kernelScript : CScript}
    (hPool : node.isActive .poolFee pindexPrev = false)
    (hAccepted : checkProofOfStake node pindexPrev view tx = true)
    (hKernel : tx.vin.head? = some kernel) (hScript : spentScript node kernel = some kernelScript)
    (hCold : CScript.isAnyColdStaking kernelScript = true) :
    ∀ out ∈ tx.vout.dropLast.drop 1, out.scriptPubKey = kernelScript := by
  unfold checkProofOfStake at hAccepted
  split at hAccepted
  case h_1 => cases hAccepted
  case h_2 txin rest hVin =>
    obtain rfl : txin = kernel := by simpa [hVin] using hKernel
    rw [hScript] at hAccepted
    simp only [hPool, hCold, false_eq_true, if_false, and_eq_true, all_eq_true,
      beq_iff_eq] at hAccepted
    exact hAccepted.2

/-- **Cold staking without the pool fee.** The coins of every cold staking input stay with its
script, if all such inputs have the kernel's script, and the last output is the contribution
that is due, or a contribution anyway, or pays the kernel's script too. -/
theorem coldStake_kept {node : Node} {block : CBlock} {pindex : CBlockIndex} {pprev : Chain}
    {fund : Fund} {recorded : RecordedVotes} {view : CStateView} {r : Connected}
    {coinstake : CTransaction} {kernel : CTxIn}
    (hPool : node.isActive .poolFee pprev = false) (hPos : block.isProofOfStake = true)
    (hStake : block.vtx[1]? = some coinstake) (hKernel : coinstake.vin.head? = some kernel)
    (hOne : ∀ txin ∈ coinstake.vin,
      (spentScript node txin).any CScript.isAnyColdStaking = true →
        spentScript node txin = spentScript node kernel)
    (hLast : fundDue node.toEnv pprev view pindex.nHeight = true ∨
      ∀ out ∈ coinstake.vout.getLast?, out.isCommunityFundContribution = true ∨
        some out.scriptPubKey = spentScript node kernel)
    (hGenesis : block.hash = node.params.genesis.hash → block = node.params.genesis)
    (h : connectBlock node block pindex pprev fund recorded view = .ok r) :
    ∀ txin ∈ coinstake.vin, ∀ script, spentScript node txin = some script →
      CScript.isAnyColdStaking script = true →
      ∀ out ∈ coinstake.vout.drop 1,
        out.isCommunityFundContribution = true ∨ out.scriptPubKey = script := by
  obtain ⟨hCheck, hEmpty | ⟨-, ⟨run⟩⟩⟩ := connectBlock_ok h
  · -- the genesis block has no coinstake
    have hSingle := node.params.genesis_single
    rw [hGenesis hEmpty.1] at hStake
    have hTwo := (List.getElem?_eq_some_iff.mp hStake).1
    omega
  intro txin hMem script hScript hCold out hOut
  -- the input has the kernel's script
  have hSame := hOne txin hMem (by rw [hScript]; exact hCold)
  rw [hScript] at hSame
  have hProof := run.proof hPos
  rw [hStake] at hProof
  have hMiddle := checkProofOfStake_middle hPool hProof hKernel hSame.symm hCold
  rcases List.eq_nil_or_concat coinstake.vout with hNil | ⟨front, last, hVout⟩
  · rw [hNil] at hOut
    cases hOut
  rw [List.concat_eq_append] at hVout
  rw [hVout, List.dropLast_concat] at hMiddle
  rw [hVout, List.drop_append] at hOut
  rcases List.mem_append.mp hOut with hFront | hEnd
  · exact .inr (hMiddle out hFront)
  · -- the last output
    obtain rfl : out = last := List.mem_singleton.mp (List.mem_of_mem_drop hEnd)
    have hGet : coinstake.vout.getLast? = some out := by rw [hVout, List.getLast?_concat]
    rcases hLast with hDue | hGiven
    · obtain ⟨coinstake', st, st', hStake', -, hConsensus, hTurn⟩ := run.coinstake hCheck hPos
      rw [hStake] at hStake'
      cases hStake'
      have hDue' := fundDue_congr hConsensus node.toEnv pprev pindex.nHeight
      rw [hDue] at hDue'
      obtain ⟨paid, hPaid, hContribution⟩ := checkCoinStake_pays hTurn hDue'
      rw [hGet] at hPaid
      cases hPaid
      exact .inl hContribution
    · rcases hGiven out hGet with hContribution | hScriptOut
      · exact .inl hContribution
      · rw [← hSame] at hScriptOut
        exact .inr (Option.some.inj hScriptOut)

/-- A cold staking output and an output of the staker. -/
def mixedFunding : CTransaction :=
  ⟨1, 1, 0, [⟨⟨7, 0⟩⟩], [⟨600, coldScript⟩, ⟨400, [0x51]⟩], ""⟩

/-- The coins of `mixedFunding`. -/
def mixedView : CStateView :=
  { CStateView.empty with coins := (∅ : Map UInt256 CCoins).insert 1 (.fromTx mixedFunding 2) }

/-- A node that knows `mixedFunding`, with no deployment active. -/
def mixedNode : Node := .trusting (fun _ _ => false) ∅ [mixedFunding]

/-- A coinstake with given inputs and outputs. -/
def mixedCoinstake (vin : List CTxIn) (vout : List CTxOut) : CTransaction :=
  ⟨102, 1, 5, vin, ⟨0, []⟩ :: vout, ""⟩

/-- A block with a given coinstake. -/
def mixedBlock (coinstake : CTransaction) : CBlock :=
  ⟨1000, 5, 0, [⟨101, 1, 5, [⟨⟨0, 2 ^ 32 - 1⟩⟩], [⟨0, []⟩], ""⟩, coinstake]⟩

/-- `ConnectBlock` on `mixedView` at height five. -/
def connectMixed (coinstake : CTransaction) : Outcome Connected :=
  connectBlock mixedNode (mixedBlock coinstake) ⟨1000, 5, 5, 0⟩ [⟨999, 4, 4, 0⟩] ⟨0, 0⟩ .empty
    mixedView

/-- A coinstake that splits the cold staking output over two outputs of its script. -/
def splitCoinstake : CTransaction :=
  mixedCoinstake [⟨⟨1, 0⟩⟩] [⟨250, coldScript⟩, ⟨350, coldScript⟩]

theorem coldStake_kept_split : ∃ r, connectMixed splitCoinstake = .ok r ∧
    ∀ txin ∈ splitCoinstake.vin, ∀ script, spentScript mixedNode txin = some script →
      CScript.isAnyColdStaking script = true →
      ∀ out ∈ splitCoinstake.vout.drop 1,
        out.isCommunityFundContribution = true ∨ out.scriptPubKey = script := by
  obtain ⟨r, hr, -⟩ : ∃ r, connectMixed splitCoinstake = .ok r ∧ True := by decide +kernel
  have hStake : (mixedBlock splitCoinstake).vtx[1]? = some splitCoinstake := rfl
  have hKernel : splitCoinstake.vin.head? = some ⟨⟨1, 0⟩⟩ := rfl
  exact ⟨r, hr, coldStake_kept rfl (by decide) hStake hKernel (by decide +kernel)
    (.inr (by decide +kernel)) (fun hEq => absurd hEq (by decide)) hr⟩

/-- **Coins that leave.** A kernel whose coins go to the last output at a height without a
contribution, and a second input that is not looked at. -/
theorem coldStake_leaves :
    (connectMixed (mixedCoinstake [⟨⟨1, 0⟩⟩]
      [⟨1, coldScript⟩, ⟨599, [0x51]⟩])).toOption.isSome = true ∧
    (connectMixed (mixedCoinstake [⟨⟨1, 1⟩⟩, ⟨⟨1, 0⟩⟩] [⟨1000, [0x51]⟩])).toOption.isSome = true ∧
    spentScript mixedNode ⟨⟨1, 0⟩⟩ = some coldScript ∧
    CScript.isAnyColdStaking coldScript = true ∧
    mixedNode.isActive .poolFee [⟨999, 4, 4, 0⟩] = false ∧
    CScript.isCommunityFundContribution [0x51] = false ∧ coldScript ≠ [0x51] := by
  refine ⟨by decide +kernel, by decide +kernel, by decide +kernel, by decide +kernel, rfl,
    by decide +kernel, by decide +kernel⟩

end Electrum
