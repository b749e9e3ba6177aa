import Electrum.Index.Undone
import Electrum.Index.Unspent
import Electrum.Validation.ParameterRange

/-!
# The unspent index along a chain

Blocks are connected and disconnected, with the indexes kept beside the view.

Main results:
* `IndexedInv.connect`, `IndexedInv.disconnect` — what one step keeps
* `unspentIndex_exact` — along every run whose steps meet the conditions the index is exact, and has
  each output at the height of the block that created it
-/

namespace Electrum

open List

/-! ## Runs -/

/-- The chain, its blocks with their undo data, and the indexes. -/
structure IndexedState where
  chain : ChainState
  /-- tip first; the genesis block is never disconnected -/
  stored : List (CBlock × List (List CTxInUndo))
  db : IndexDB

/-- `ConnectTip`.  For the genesis block `ConnectBlock` returns before it writes the indexes. -/
def connectIndexed (node : Node) (x : Indexing) (block : CBlock) (pindex : CBlockIndex)
    (st : IndexedState) : Option IndexedState :=
  (connectTip node block pindex st.chain).map fun chain =>
    match connectBlock node block pindex st.chain.chain st.chain.fund st.chain.recorded
      st.chain.view with
    | .error _ => { st with chain := chain }
    | .ok r => ⟨chain, (block, r.vtxundo) :: st.stored,
        if block.hash == node.params.genesis.hash then st.db
        else x.connectIndexes pindex.nHeight block st.chain.view st.db⟩

/-- `DisconnectTip`, which fails if `DisconnectBlock` reports that the data does not fit. -/
def disconnectIndexed (node : Node) (x : Indexing) (fund : Fund) (st : IndexedState) :
    Option IndexedState :=
  match st.chain.chain, st.stored with
  | pindex :: pprev, (block, vtxundo) :: stored => do
    let r ← disconnectBlock node block pindex pprev st.chain.recorded vtxundo st.chain.view
    if !r.1 then none
    else
      let db ← x.disconnectIndexes pindex.nHeight block vtxundo st.chain.view st.db
      let chain ← disconnectTip node block vtxundo fund st.chain
      return ⟨chain, stored, db⟩
  | _, _ => none

/-- A block is connected or rejected, or the tip is disconnected, under conditions on the block and
the view, and on the undo data of the tip. -/
inductive IndexedStep (node : Node) (x : Indexing) (okConnect : CBlock → CStateView → Prop)
    (okUndo : List (List CTxInUndo) → Prop) : IndexedState → IndexedState → Prop
  | connect {st st' : IndexedState} {block : CBlock} {pindex : CBlockIndex}
      (hExt : Extends node st.chain.chain block pindex) (hOk : okConnect block st.chain.view)
      (h : connectIndexed node x block pindex st = some st') :
      IndexedStep node x okConnect okUndo st st'
  | disconnect {st st' : IndexedState} {fund : Fund}
      (hOk : ∀ it, st.stored.head? = some it → okUndo it.2)
      (h : disconnectIndexed node x fund st = some st') :
      IndexedStep node x okConnect okUndo st st'

/-- The states that steps which meet the conditions lead to. -/
def IndexedRun (node : Node) (x : Indexing) (okConnect : CBlock → CStateView → Prop)
    (okUndo : List (List CTxInUndo) → Prop) : IndexedState → IndexedState → Prop :=
  Relation.ReflTransGen (IndexedStep node x okConnect okUndo)

/-- The genesis block and empty indexes. -/
def IndexedState.genesis (genesis : CBlockIndex) : IndexedState := ⟨.genesis genesis, [], .empty⟩

namespace Indexing

variable {x : Indexing}

theorem KnownOutputs.of_coins {txs : List ChainTx} {view view' : CStateView}
    (h : x.KnownOutputs txs view) (hCoins : view'.coins = view.coins) : x.KnownOutputs txs view' := by
  intro prevout v hv
  refine h prevout v ?_
  rw [← hv, CStateView.unspentValue, CStateView.unspentValue, hCoins]

theorem Exact.of_coins {db : Map CAddressUnspentKey CAddressUnspentValue} {view view' : CStateView}
    (h : x.Exact db view) (hCoins : view'.coins = view.coins) : x.Exact db view' := by
  intro address prevout
  rw [h address prevout, CStateView.unspentValue, CStateView.unspentValue, hCoins]

end Indexing

/-- The transactions of the blocks, the last one first. -/
def chainTxs (blocks : List (CBlockIndex × CBlock × List (List CTxInUndo))) : List ChainTx :=
  blocks.foldr (fun it txs => ChainTx.push it.1.nHeight (it.2.1.vtx.zip ([] :: it.2.2)) txs) []

theorem ChainTx.mem_push {nHeight : Nat} {l : List (CTransaction × List CTxInUndo)}
    {txs : List ChainTx} {t : ChainTx} (h : t ∈ push nHeight l txs) :
    t ∈ txs ∨ t.nHeight = nHeight ∧ ∃ it ∈ l, t.tx = it.1 := by
  induction l generalizing txs with
  | nil => exact Or.inl h
  | cons it rest ih =>
    rcases ih h with hMem | ⟨hHeight, it', hIt', hTx⟩
    · rcases mem_cons.mp hMem with rfl | hOld
      · exact Or.inr ⟨rfl, it, mem_cons_self, rfl⟩
      · exact Or.inl hOld
    · exact Or.inr ⟨hHeight, it', mem_cons_of_mem it hIt', hTx⟩

/-- Each transaction is in a block of its height. -/
theorem mem_chainTxs {blocks : List (CBlockIndex × CBlock × List (List CTxInUndo))} {t : ChainTx}
    (h : t ∈ chainTxs blocks) : ∃ it ∈ blocks, t.nHeight = it.1.nHeight ∧ t.tx ∈ it.2.1.vtx := by
  induction blocks with
  | nil => cases h
  | cons it rest ih =>
    rcases ChainTx.mem_push h with hOld | ⟨hHeight, pair, hPair, hTx⟩
    · obtain ⟨it', hIt', hBlock⟩ := ih hOld
      exact ⟨it', mem_cons_of_mem it hIt', hBlock⟩
    · exact ⟨it, mem_cons_self, hHeight, hTx ▸ (of_mem_zip hPair).1⟩

/-- The coinbase spends nothing. -/
theorem connectCoins_undo_coinbase {nHeight : Nat} {coinbase : CTransaction}
    {vtx : List CTransaction} {view view' : CStateView} {undos : List (List CTxInUndo)}
    (hCoinBase : coinbase.isCoinBase = true)
    (h : connectCoins nHeight (coinbase :: vtx) view = some (view', undos)) :
    undos = [] :: undos.tail := by
  rw [connectCoins, updateCoins, if_pos hCoinBase, Option.map_some, Option.bind_some,
    Option.map_eq_some_iff] at h
  obtain ⟨r, -, hEq⟩ := h
  cases hEq
  rfl

/-- What holds of every state of a run. -/
structure IndexedInv (x : Indexing) (st : IndexedState) : Prop where
  range : RangeInv st.chain.view
  exact : x.Exact st.db.addressUnspentIndex st.chain.view
  known : x.KnownOutputs (chainTxs (st.chain.chain.zip st.stored)) st.chain.view
  undo : x.KnownUndo (chainTxs (st.chain.chain.zip st.stored))

theorem indexedInv_genesis (x : Indexing) (genesis : CBlockIndex) :
    IndexedInv x (.genesis genesis) := by
  have hNone : ∀ prevout, (IndexedState.genesis genesis).chain.view.outputFor prevout = none :=
    fun prevout => by
      simp [IndexedState.genesis, ChainState.genesis, CStateView.empty, CStateView.outputFor]
  refine ⟨rangeInv_genesis genesis, fun address prevout => ?_, fun prevout v hv => ?_, trivial⟩
  · rw [unspentValue_none.mpr (hNone prevout)]
    simp [IndexedState.genesis, IndexDB.empty]
  · rw [unspentValue_none.mpr (hNone prevout)] at hv
    cases hv

section Steps

variable {node : Node} {x : Indexing} (hAddress : x.fAddressIndex = true)

include hAddress

/-- **Connecting.** -/
theorem IndexedInv.connect {block : CBlock} {pindex : CBlockIndex} {st st' : IndexedState}
    (hInv : IndexedInv x st) (hExt : Extends node st.chain.chain block pindex)
    (hFiles : block.Files st.chain.view) (h : connectIndexed node x block pindex st = some st') :
    IndexedInv x st' := by
  rw [connectIndexed, Option.map_eq_some_iff] at h
  obtain ⟨chain, hTip, rfl⟩ := h
  have hRange := connectTip_rangeInv hInv.range hExt hTip
  unfold connectTip at hTip
  cases hConnect : connectBlock node block pindex st.chain.chain st.chain.fund st.chain.recorded
    st.chain.view with
  | error recorded =>
    rw [hConnect] at hTip
    cases hTip
    exact ⟨hRange, hInv.exact, hInv.known, hInv.undo⟩
  | ok r =>
    rw [hConnect] at hTip
    obtain ⟨v, hVote, rfl⟩ := Option.map_eq_some_iff.mp hTip
    have hVoted := voteStep_coins (connectBlock_rangeInv hInv.range hExt.hashes hConnect).firm hVote
    obtain ⟨hCheck, hRest⟩ := connectBlock_ok hConnect
    -- the outputs of an accepted block have values
    have hOutputs : ∀ tx ∈ block.vtx, ∀ out ∈ tx.vout, out.Plain := by
      intro tx hTx out hOut
      obtain ⟨-, hKey, hFiled⟩ := hFiles.outputs tx hTx out hOut
      refine ⟨?_, hKey, hFiled⟩
      have hValue := checkTransaction_vout_nonneg (checkBlock_transaction hCheck hTx) out hOut
      omega
    rcases hRest with ⟨hGenesis, rfl⟩ | ⟨hGenesis, ⟨run⟩⟩
    · rw [if_pos (beq_iff_eq.mpr hGenesis)]
      -- the coins are those before; only the coinbase has undo data, and that is empty
      obtain ⟨coinbase, rest, hVtx, -⟩ := checkBlock_vtx hCheck
      have hPush : chainTxs ((pindex :: st.chain.chain).zip ((block, []) :: st.stored)) =
          ⟨pindex.nHeight, coinbase, []⟩ :: chainTxs (st.chain.chain.zip st.stored) := by
        rw [zip_cons_cons, chainTxs, foldr_cons, hVtx, zip_cons_cons, zip_nil_right]
        rfl
      refine ⟨hRange, hInv.exact.of_coins hVoted, ?_, ?_⟩
      · dsimp only
        rw [hPush]
        exact fun prevout v hv => ((hInv.known.of_coins hVoted) prevout v hv).cons _
      · dsimp only
        rw [hPush]
        refine ⟨⟨hOutputs coinbase (hVtx ▸ mem_cons_self), fun it hIt => ?_⟩, hInv.undo⟩
        rw [zip_nil_right] at hIt
        cases hIt
    · obtain ⟨view', undos, hCoins, hSame, hUndos⟩ := run.connectCoins
      obtain ⟨hExact, hKnown, hUndo⟩ := Indexing.connectCoins_exact hAddress hCoins 0 hInv.exact
        hInv.known hInv.undo
        (hFiles.txs fun tx hTx out hOut => (hOutputs tx hTx out hOut).value)
      have hPush : undos = [] :: r.vtxundo := by
        obtain ⟨coinbase, rest, hVtx, hCoinBase, -⟩ := checkBlock_vtx hCheck
        rw [hVtx] at hCoins
        rw [hUndos]
        exact connectCoins_undo_coinbase hCoinBase hCoins
      rw [hPush] at hKnown hUndo
      have hPaid : r.view = run.cb.view := congrArg Connected.view run.result
      have hView : v.1.coins = view'.coins := by
        rw [hVoted, hSame, hPaid, run.paysOut.frame]
      rw [if_neg (fun h => hGenesis (beq_iff_eq.mp h))]
      refine ⟨hRange, ?_, hKnown.of_coins hView, hUndo⟩
      rw [Indexing.connectIndexes, IndexDB.write, if_pos hAddress]
      exact hExact.of_coins hView

/-- **Disconnecting.** -/
theorem IndexedInv.disconnect {fund : Fund} {st st' : IndexedState} (hInv : IndexedInv x st)
    (hUndo : ∀ it, st.stored.head? = some it → ∀ undo ∈ it.2, x.Restorable undo)
    (h : disconnectIndexed node x fund st = some st') : IndexedInv x st' := by
  unfold disconnectIndexed at h
  split at h
  case h_2 => cases h
  case h_1 pindex pprev block vtxundo stored hChain hStored =>
    simp only [Option.bind_eq_bind, Option.bind_eq_some_iff] at h
    obtain ⟨⟨fClean, view⟩, hBlock, h⟩ := h
    cases fClean with
    | false => cases h
    | true =>
      rw [if_neg (by simp)] at h
      simp only [Option.bind_eq_some_iff] at h
      obtain ⟨db, hDb, chain, hTip, h⟩ := h
      cases h
      have hHeights := hUndo (block, vtxundo) (by rw [hStored]; rfl)
      have hRange := disconnectTip_rangeInv hInv.range hTip
      -- the coins are those that `DisconnectBlock` leaves
      obtain ⟨p, fClean, w, hPrev, hFound, hView⟩ := disconnectTip_coins hInv.range hTip
      obtain ⟨w', hCoins, -⟩ := disconnectBlock_coins hBlock
      rw [hChain] at hPrev
      obtain ⟨rfl, rfl⟩ := List.cons.inj hPrev
      rw [hCoins] at hFound
      cases hFound
      rw [Indexing.disconnectIndexes, Indexing.disconnectRecords_eq, hCoins] at hDb
      cases hDb
      unfold disconnectCoins at hCoins
      split at hCoins
      · cases hCoins
      have hItems : ∀ it ∈ block.vtx.zip (none :: vtxundo.map some), ∀ undo, it.2 = some undo →
          x.Restorable undo := by
        intro it hIt undo hSome
        have hIn := (of_mem_zip hIt).2
        rw [hSome] at hIn
        simp only [mem_cons, reduceCtorEq, false_or, mem_map, Option.some.injEq,
          exists_eq_right] at hIn
        exact hHeights undo hIn
      -- the transactions of the block are on top of those that stay
      have hTop : chainTxs (st.chain.chain.zip st.stored) = ChainTx.push pindex.nHeight
          ((block.vtx.zip (none :: vtxundo.map some)).map fun it => (it.1, it.2.getD []))
          (chainTxs (chain.chain.zip stored)) := by
        rw [hChain, hStored, zip_cons_cons, chainTxs, foldr_cons]
        have hSomes : (none :: vtxundo.map some).map (Option.getD · []) = [] :: vtxundo := by
          simp
        have hZip : block.vtx.zip ([] :: vtxundo) =
            (block.vtx.zip (none :: vtxundo.map some)).map fun it => (it.1, it.2.getD []) := by
          rw [← hSomes, zip_map_right]
          rfl
        rw [← hZip]
        rfl
      have hKnown := hInv.known
      have hBlocks := hInv.undo
      rw [hTop] at hKnown hBlocks
      obtain ⟨hExact, hLeft, hBelow⟩ :=
        Indexing.disconnectTxs_exact hAddress 0 hCoins hInv.exact hKnown hBlocks hItems
      refine ⟨hRange, ?_, hLeft.of_coins hView, hBelow⟩
      dsimp only
      rw [IndexDB.erase, if_pos hAddress]
      exact hExact.of_coins hView

end Steps

/-- **The unspent index is exact.** Along every run in which each block that is connected is new,
creates no output with a voting key, a bad key or a key in a form that is not looked for and spends
no script hash, and each block that is disconnected has its heights in the undo data, the index has
under each address exactly the unspent outputs of the chain that are attributed to it.  Each of them
is an output of a transaction of the chain, and its height is that of the block with this
transaction. -/
theorem unspentIndex_exact {node : Node} {x : Indexing} {genesis : CBlockIndex} {st : IndexedState}
    (hAddress : x.fAddressIndex = true)
    (hRun : IndexedRun node x CBlock.Files (fun vtxundo => ∀ undo ∈ vtxundo, x.Restorable undo)
      (.genesis genesis) st) (address : Nat × UInt160) (prevout : COutPoint) :
    st.db.addressUnspentIndex[unspentKey address prevout]? =
      (st.chain.view.unspentValue prevout).filter (fun v =>
        decide (x.ownerKey v.script = some address)) ∧
    ∀ v, st.db.addressUnspentIndex[unspentKey address prevout]? = some v →
      ∃ it ∈ st.chain.chain.zip st.stored, ∃ tx ∈ it.2.1.vtx, tx.hash = prevout.hash ∧
        tx.vout[prevout.n]? = some ⟨v.satoshis, v.script⟩ ∧ v.blockHeight = it.1.nHeight := by
  have hInv : IndexedInv x st := by
    induction hRun with
    | refl => exact indexedInv_genesis x genesis
    | tail _ hStep ih =>
      cases hStep with
      | connect hExt hOk h => exact ih.connect hAddress hExt hOk h
      | disconnect hOk h => exact ih.disconnect hAddress hOk h
  refine ⟨hInv.exact address prevout, fun v hv => ?_⟩
  rw [hInv.exact address prevout, Option.filter_eq_some_iff, decide_eq_true_eq] at hv
  have hOwner : x.owner v ≠ none := Option.ne_none_iff_exists'.mpr ⟨address, hv.2⟩
  obtain ⟨t, ht, hHash, hOut, hHeight⟩ := (hInv.known prevout v hv.1).created hOwner
  obtain ⟨it, hIt, hSame, hTx⟩ := mem_chainTxs ht
  exact ⟨it, hIt, t.tx, hTx, hHash, hOut, hHeight.symm.trans hSame⟩

/-! ## A run -/

/-- Connect a block, or disconnect the tip. -/
inductive IndexedMove where
  | connect (block : CBlock)
  | disconnect

section Moves

variable (node : Node) (x : Indexing) (okConnect : CBlock → CStateView → Prop)
  (okUndo : List (List CTxInUndo) → Prop) [∀ block view, Decidable (okConnect block view)]
  [∀ vtxundo, Decidable (okUndo vtxundo)]

/-- One move, if it meets the conditions. -/
def IndexedState.move (st : IndexedState) : IndexedMove → Option IndexedState
  | .connect block =>
    let pindex := childIndex st.chain.chain block
    if Extends node st.chain.chain block pindex ∧ okConnect block st.chain.view then
      connectIndexed node x block pindex st
    else none
  | .disconnect =>
    if ∀ it, it ∈ st.stored.head? → okUndo it.2 then disconnectIndexed node x ⟨0, 0⟩ st else none

theorem IndexedState.move_run {moves : List IndexedMove} {st st' : IndexedState}
    (h : moves.foldlM (IndexedState.move node x okConnect okUndo) st = some st') :
    IndexedRun node x okConnect okUndo st st' := by
  refine foldlM_option_invariant (fun _ s => IndexedRun node x okConnect okUndo st s) moves
    (b := st) .refl ?_ h
  intro done m rest s s' _ hRun hStep
  cases m with
  | connect block =>
    dsimp only [IndexedState.move] at hStep
    split at hStep
    case isTrue hOk => exact hRun.tail (.connect hOk.1 hOk.2 hStep)
    case isFalse => cases hStep
  | disconnect =>
    dsimp only [IndexedState.move] at hStep
    split at hStep
    case isTrue hOk => exact hRun.tail (.disconnect hOk hStep)
    case isFalse => cases hStep

end Moves

/-- Six blocks, one that spends the coinbase of the first, and back. -/
def restoringMoves : List IndexedMove :=
  (matureChain ++ [matureBlock]).map .connect ++ [.disconnect]

/-- The coinbase that was spent and restored is in the index, with the height of its block. -/
theorem unspentIndex_exact_restored : ∃ st,
    restoringMoves.foldlM (IndexedState.move (.developing (matureChain ++ [matureBlock]) []) .both
      CBlock.Files (fun vtxundo => ∀ undo ∈ vtxundo, Indexing.both.Restorable undo))
      (.genesis devParams.genesisIndex) = some st ∧
    st.chain.view.unspentValue ⟨1001, 0⟩ = some ⟨getBlockSubsidy 1, voterScript, 1⟩ ∧
    st.db.addressUnspentIndex[unspentKey (1, replicate 20 7) ⟨1001, 0⟩]? =
      some ⟨getBlockSubsidy 1, voterScript, 1⟩ := by
  obtain ⟨st, hSome, hValue⟩ : ∃ st, restoringMoves.foldlM (IndexedState.move
      (.developing (matureChain ++ [matureBlock]) []) .both CBlock.Files
      (fun vtxundo => ∀ undo ∈ vtxundo, Indexing.both.Restorable undo))
      (.genesis devParams.genesisIndex) = some st ∧
      st.chain.view.unspentValue ⟨1001, 0⟩ = some ⟨getBlockSubsidy 1, voterScript, 1⟩ := by
    decide +kernel
  refine ⟨st, hSome, hValue, ?_⟩
  rw [(unspentIndex_exact rfl (IndexedState.move_run _ _ _ _ hSome) _ _).1, hValue]
  decide +kernel

/-- A script that pays to a script hash. -/
def scriptHashScript : CScript := [OP_HASH160, 0x14] ++ replicate 20 9 ++ [OP_EQUAL]

/-- Six blocks, the first of which pays to a script hash, and one that spends that output. -/
def scriptHashChain : List CBlock := devBlock 1 scriptHashScript [] :: matureChain.tail ++ [matureBlock]

/-- An output that paid to a script hash stays in the index when it is spent. -/
theorem unspentIndex_stale : ∃ st,
    (scriptHashChain.map .connect).foldlM (IndexedState.move (.developing scriptHashChain []) .both
      (fun _ _ => True) (fun _ => True)) (.genesis devParams.genesisIndex) = some st ∧
    IndexedRun (.developing scriptHashChain []) .both (fun _ _ => True) (fun _ => True)
      (.genesis devParams.genesisIndex) st ∧
    st.chain.view.unspentValue ⟨1001, 0⟩ = none ∧
    st.db.addressUnspentIndex[unspentKey (2, replicate 20 9) ⟨1001, 0⟩]? =
      some ⟨getBlockSubsidy 1, scriptHashScript, 1⟩ := by
  obtain ⟨st, hSome, hHolds⟩ : ∃ st, (scriptHashChain.map .connect).foldlM (IndexedState.move
      (.developing scriptHashChain []) .both (fun _ _ => True) (fun _ => True))
      (.genesis devParams.genesisIndex) = some st ∧ st.chain.view.unspentValue ⟨1001, 0⟩ = none ∧
      st.db.addressUnspentIndex[unspentKey (2, replicate 20 9) ⟨1001, 0⟩]? =
        some ⟨getBlockSubsidy 1, scriptHashScript, 1⟩ := by
    decide +kernel
  exact ⟨st, hSome, IndexedState.move_run _ _ _ _ hSome, hHolds⟩

end Electrum
