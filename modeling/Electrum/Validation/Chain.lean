import Electrum.Dao.Outcome
import Electrum.Dao.StepMoves
import Electrum.Lib.Run
import Electrum.Validation.Grow

/-!
# Connecting a chain

`ConnectTip` runs `ConnectBlock` and then `VoteStep` on the view of the tip.  A run connects
block after block; `Sane` collects what holds of every view that a run reaches.

Main results:
* `connectTip_run` — what connecting a block does
* `sane_run` — every reached state is sane
* `connectAll_run` — connecting a list of blocks is a run
-/

namespace Electrum

/-- The active chain with its view, its fund, and the globals of the vote counting. -/
structure ChainState where
  /-- tip first -/
  chain : Chain
  view : CStateView
  fund : Fund
  recorded : RecordedVotes
  cache : VoteCache

/-- `ConnectTip`.  A block that `ConnectBlock` rejects leaves its recorded votes behind. -/
def connectTip (node : Node) (block : CBlock) (pindex : CBlockIndex) (st : ChainState) :
    Option ChainState :=
  match connectBlock node block pindex st.chain st.fund st.recorded st.view with
  | .error recorded => some { st with recorded := recorded }
  | .ok r =>
    (voteStep node.toEnv r.recorded (pindex :: st.chain) false r.fund r.view st.cache).map
      fun v => ⟨pindex :: st.chain, v.1, v.2.1, r.recorded, v.2.2⟩

/-- A cycle ends with the block `pindex`. -/
def endsCycle (env : Env) (view : CStateView) (pindex : CBlockIndex) : Prop :=
  (pindex.nHeight + 1) % getConsensusParameter env view .votingCycleLength = 0

instance (env : Env) (view : CStateView) (pindex : CBlockIndex) :
    Decidable (endsCycle env view pindex) := instDecidableEqNat _ _

/-- The height of the tip. -/
def tipHeight (chain : Chain) : Nat := (chain.head?.map (·.nHeight)).getD 0

/-- `pindex` is the entry of `block` in the block index, on top of the chain. -/
@[mk_iff]
structure Extends (node : Node) (chain : Chain) (block : CBlock) (pindex : CBlockIndex) :
    Prop where
  hash : pindex.phashBlock = block.hash
  time : pindex.nTime = block.nTime
  nonce : pindex.nNonce = block.nNonce
  known : node.mapBlockIndex[pindex.phashBlock]? = some pindex
  height : pindex.nHeight = tipHeight chain + 1
  /-- no transaction hashes to zero -/
  hashes : ∀ tx ∈ block.vtx, tx.hash ≠ 0

theorem Extends.above {node : Node} {chain : Chain} {block : CBlock} {pindex : CBlockIndex}
    (h : Extends node chain block pindex) : tipHeight chain < pindex.nHeight := by
  rw [h.height]
  exact Nat.lt_succ_self _

/-- One more block is connected, or rejected, under a condition on the state and the block. -/
def TipStep (node : Node) (ok : ChainState → CBlock → CBlockIndex → Prop) (st st' : ChainState) :
    Prop :=
  ∃ block pindex, Extends node st.chain block pindex ∧ ok st block pindex ∧
    connectTip node block pindex st = some st'

/-- The states that blocks which meet the condition lead to. -/
def ChainRun (node : Node) (ok : ChainState → CBlock → CBlockIndex → Prop) :
    ChainState → ChainState → Prop :=
  Relation.ReflTransGen (TipStep node ok)

/-- What a block adds to the fund; for the genesis block `ConnectBlock` adds nothing. -/
def blockContribution (node : Node) (block : CBlock) : Int :=
  if block.hash = node.params.genesis.hash then 0
  else (block.vtx.map CTransaction.getValueOutCFund).sum

/-- What a connected block did: its transactions made `grown` from the view, its coinbase
`paid` from that, and `VoteStep` the rest. -/
structure TipRun (node : Node) (block : CBlock) (pindex : CBlockIndex) (st st' : ChainState)
    where
  grown : CStateView
  paid : CStateView
  fund : Fund
  listed : List UInt256
  chain : st'.chain = pindex :: st.chain
  checked : checkBlock node block = true
  contributed : fund = ⟨st.fund.nCFSupply + blockContribution node block, st.fund.nCFLocked⟩
  grows : Grows block.hash st.view grown
  pays : PaysOut node pindex st.chain listed grown paid
  lists : listed = ((block.vtx.head?).map (listedRequests node)).getD []
  run : StepRun (.connecting node.toEnv st'.recorded pindex st.chain paid st.cache)
    (node.isActive .communityFund st.chain) (node.isActive .consultations st.chain)
    (scanFor node.toEnv st'.recorded pindex st.chain paid st.cache).2 fund paid st'.fund st'.view

variable {node : Node} {st st' : ChainState}

/-- A block that `ConnectBlock` accepts and `VoteStep` counts. -/
theorem connected_run {block : CBlock} {pindex : CBlockIndex}
    (hHashes : ∀ tx ∈ block.vtx, tx.hash ≠ 0)
    {r : Connected} {v : CStateView × Fund × VoteCache}
    (hConnect : connectBlock node block pindex st.chain st.fund st.recorded st.view = .ok r)
    (hVote : voteStep node.toEnv r.recorded (pindex :: st.chain) false r.fund r.view st.cache =
      some v) :
    ∃ run : TipRun node block pindex st
      ⟨pindex :: st.chain, v.1, v.2.1, r.recorded, v.2.2⟩, run.paid = r.view := by
  obtain ⟨-, -, run, -⟩ := voteStep_run hVote
  obtain ⟨hCheck, hRest⟩ := connectBlock_ok hConnect
  rcases hRest with ⟨hGenesis, rfl⟩ | ⟨hGenesis, ⟨cr⟩⟩
  · exact ⟨{
      grown := st.view, paid := st.view, fund := st.fund, listed := _
      chain := rfl
      checked := hCheck
      contributed := by rw [blockContribution, if_pos hGenesis, Int.add_zero]
      grows := .refl st.view
      pays := ⟨rfl, fun _ h => h, fun _ _ h => .inl h⟩
      lists := rfl
      run := run }, rfl⟩
  · have hPaid : cr.cb.view = r.view := (congrArg Connected.view cr.result).symm
    exact ⟨{
      grown := cr.st.view, paid := r.view, fund := r.fund, listed := _
      chain := rfl
      checked := hCheck
      contributed := by
        rw [blockContribution, if_neg hGenesis]
        exact (congrArg Connected.fund cr.result).trans cr.contributed
      grows := cr.grows hHashes
      pays := hPaid ▸ cr.paysOut
      lists := by rw [cr.head]; rfl
      run := run }, rfl⟩

/-- **ConnectTip.** -/
theorem connectTip_run {block : CBlock} {pindex : CBlockIndex}
    (hHashes : ∀ tx ∈ block.vtx, tx.hash ≠ 0)
    (h : connectTip node block pindex st = some st') :
    (∃ recorded, st' = { st with recorded := recorded }) ∨
      Nonempty (TipRun node block pindex st st') := by
  unfold connectTip at h
  split at h
  case h_1 recorded _ =>
    cases h
    exact .inl ⟨recorded, rfl⟩
  case h_2 r hConnect =>
    rw [Option.map_eq_some_iff] at h
    obtain ⟨v, hVote, rfl⟩ := h
    obtain ⟨run, -⟩ := connected_run hHashes hConnect hVote
    exact .inr ⟨run⟩

/-! ## What holds of every reached state -/

/-- The view fits the chain: no object counts as null, and no state was entered above the
tip. -/
structure Sane (node : Node) (st : ChainState) : Prop where
  solid : Solid st.view
  below : StatesBelow node.toEnv (tipHeight st.chain) st.view

/-- The state after the genesis block, for which `ConnectBlock` does nothing. -/
def ChainState.genesis (genesis : CBlockIndex) : ChainState :=
  ⟨[genesis], .empty, ⟨0, 0⟩, .empty, .init⟩

theorem sane_genesis (node : Node) (genesis : CBlockIndex) : Sane node (.genesis genesis) := by
  refine ⟨⟨?_, ?_, ?_, ?_⟩, ⟨?_, ?_, ?_, ?_⟩⟩ <;> intro hash x hx
  all_goals
    simp [ChainState.genesis, CStateView.empty, CStateView.getProposal,
      CStateView.getPaymentRequest, CStateView.getConsultation,
      CStateView.getConsultationAnswer] at hx

namespace TipRun

variable {node : Node} {block : CBlock} {pindex : CBlockIndex} {st st' : ChainState}
  (run : TipRun node block pindex st st') (hExt : Extends node st.chain block pindex)
  (hSane : Sane node st)

include hSane

theorem grown_solid : Solid run.grown := run.grows.solid hSane.solid

theorem grown_below : StatesBelow node.toEnv (tipHeight st.chain) run.grown :=
  run.grows.statesBelow hSane.below

theorem paid_solid : Solid run.paid := run.pays.solid (run.grown_solid hSane)

include run hExt

theorem sane : Sane node st' := by
  have hTip : tipHeight st'.chain = pindex.nHeight := by
    rw [run.chain]
    rfl
  have hLe : tipHeight st.chain ≤ pindex.nHeight := by
    rw [hExt.height]
    exact Nat.le_succ _
  have hGrown := run.grown_below hSane
  have hPaid : StatesBelow node.toEnv pindex.nHeight run.paid :=
    run.pays.statesBelow hExt.known (Nat.le_refl _)
      ⟨fun k p hp => (hGrown.proposals k p hp).mono hLe,
        fun k r hr => (hGrown.paymentRequests k r hr).mono hLe,
        fun k c hc => (hGrown.consultations k c hc).mono hLe,
        fun k a ha => (hGrown.answers k a ha).mono hLe⟩
  refine ⟨run.run.solid rfl (run.paid_solid hSane), ?_⟩
  rw [hTip]
  exact run.run.statesBelow rfl (run.paid_solid hSane) hPaid hExt.known (Nat.le_refl _)

end TipRun

/-- **Step.** Connecting a block keeps the state sane. -/
theorem sane_step {ok : ChainState → CBlock → CBlockIndex → Prop}
    (hSane : Sane node st) (hStep : TipStep node ok st st') :
    Sane node st' := by
  obtain ⟨block, pindex, hExt, -, hConnect⟩ := hStep
  rcases connectTip_run hExt.hashes hConnect with ⟨recorded, rfl⟩ | ⟨⟨run⟩⟩
  · exact ⟨hSane.solid, hSane.below⟩
  · exact run.sane hExt hSane

/-! ## Connecting a list of blocks -/

instance (node : Node) (chain : Chain) (block : CBlock) (pindex : CBlockIndex) :
    Decidable (Extends node chain block pindex) :=
  decidable_of_iff _ (extends_iff node chain block pindex).symm

/-- The entry in the block index of a block on top of the chain. -/
def childIndex (chain : Chain) (block : CBlock) : CBlockIndex :=
  ⟨block.hash, tipHeight chain + 1, block.nTime, block.nNonce⟩

/-- Connect blocks one after the other, all of which must be in the block index. -/
def connectAll (node : Node) (blocks : List CBlock) (st : ChainState) : Option ChainState :=
  blocks.foldlM (fun st block =>
    let pindex := childIndex st.chain block
    if Extends node st.chain block pindex then connectTip node block pindex st else none) st

theorem connectAll_run {blocks : List CBlock}
    (h : connectAll node blocks st = some st') : ChainRun node (fun _ _ _ => True) st st' := by
  refine foldlM_option_invariant (fun _ s => ChainRun node (fun _ _ _ => True) st s) blocks
    (b := st) .refl ?_ h
  intro done block rest s s' _ hRun hStep
  dsimp only at hStep
  split at hStep
  case isTrue hExt => exact hRun.tail ⟨block, _, hExt, trivial, hStep⟩
  case isFalse => cases hStep

/-- The block index entry of a network's genesis block. -/
def Params.genesisIndex (params : Params) : CBlockIndex :=
  ⟨params.genesis.hash, 0, params.genesis.nTime, params.genesis.nNonce⟩

/-- The chain of the given blocks, on top of the genesis block. -/
def Params.chainOf (params : Params) (blocks : List CBlock) : Chain :=
  blocks.foldl (fun chain block => childIndex chain block :: chain) [params.genesisIndex]

/-- A node of the development network with all deployments active, on which every check outside
the model passes.  It knows the given blocks and reads the given texts as JSON. -/
def Node.developing (blocks : List CBlock) (texts : List (String × UniValue)) : Node :=
  { Node.trusting (fun _ _ => true)
      (Std.ExtTreeMap.ofList ((devParams.chainOf blocks).map fun pindex =>
        (pindex.phashBlock, pindex)) compare)
      (blocks.flatMap (·.vtx)) with
    params := devParams
    readJSON := fun str => (texts.find? fun it => it.1 == str).map (·.2) }

/-- A block of the development network with an own coinbase that claims the subsidy. -/
def devBlock (n : Nat) (script : CScript) (vtx : List CTransaction) : CBlock :=
  ⟨n, n, 0, ⟨1000 + n, 1, n, [⟨⟨0, 2 ^ 32 - 1⟩⟩], [⟨getBlockSubsidy n, script⟩], ""⟩ :: vtx⟩

/-- The same with more outputs of the coinbase. -/
def devBlockWith (n : Nat) (outs : List CTxOut) (vtx : List CTransaction) : CBlock :=
  ⟨n, n, 0, ⟨1000 + n, 1, n, [⟨⟨0, 2 ^ 32 - 1⟩⟩], ⟨getBlockSubsidy n, []⟩ :: outs, ""⟩ :: vtx⟩

/-- A pay-to-public-key-hash script. -/
def voterScript : CScript :=
  [OP_DUP, OP_HASH160, 0x14] ++ List.replicate 20 7 ++ [OP_EQUALVERIFY, OP_CHECKSIG]

/-- The transaction that makes the proposal 2007. -/
def voteProposal : CTransaction :=
  ⟨2007, CTransaction.PROPOSAL_VERSION, 7, [⟨⟨1001, 0⟩⟩],
    [⟨50000000, [OP_RETURN, OP_CFUND]⟩, ⟨500 * COIN, voterScript⟩, ⟨500 * COIN, voterScript⟩],
    "proposal"⟩

/-- Seven blocks that make the coins and the proposal. -/
def voteChain : List CBlock :=
  [devBlock 1 voterScript [], devBlock 2 [] [], devBlock 3 [] [], devBlock 4 [] [],
    devBlock 5 [] [], devBlock 6 [] [], devBlock 7 [] [voteProposal]]

/-! ## A chain with short cycles -/

def smallNode : Node := .trusting (fun _ _ => true) smallEnv.mapBlockIndex []

/-- The consultation about the quorum is under vote, and its answer has won the cycle. -/
def quorumState : ChainState :=
  ⟨smallChain 8, quorumView 3, ⟨0, 0⟩, quorumVotes, .init⟩

/-- The block at height nine, with a coinbase alone. -/
def quorumBlock : CBlock :=
  ⟨9, 9, 0, [⟨1009, 1, 9, [⟨⟨0, 2 ^ 32 - 1⟩⟩], [⟨0, []⟩], ""⟩]⟩

end Electrum
