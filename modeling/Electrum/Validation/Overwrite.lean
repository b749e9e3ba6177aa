import Electrum.Validation.Maturity
import Electrum.Validation.ParameterRange
import Electrum.Validation.Supply

/-!
# Overwriting transactions

`ConnectBlock` looks for transactions that would overwrite unspent outputs only while the hash
of the block is not known, so the rule does not bind the blocks of the chain.  What keeps them
from overwriting is that a transaction cannot spend its inputs twice: as long as every coinbase
is new, every transaction is.

Main results:
* `fEnforceBIP30_known` — the check is not made for a block of the chain
* `TxHistory.connect`, `TxHistory.disconnect` — one transaction, and what the chain has spent so far
* `ActiveChain.history` — what the chain has spent, over every chain with new coinbases
* `connectBlock_keeps_unspent` — no block of such a chain overwrites unspent outputs
* `connectBlock_overwrites` — a repeated coinbase overwrites the first one
-/

namespace Electrum

open List

/-! ## Outputs over one transaction -/

variable {view view' : CStateView} {tx : CTransaction} {txs : List CTransaction} {nHeight : Nat}
  {undo : List CTxInUndo} {prevout : COutPoint} {block : CBlock}

/-- Under other identifiers than its own, a transaction takes away what it spends. -/
theorem updateCoins_outputFor (h : updateCoins view tx nHeight = some (view', undo))
    (hOther : prevout.hash ≠ tx.hash) :
    view'.outputFor prevout = if tx.isCoinBase = false ∧ prevout ∈ tx.vin.map (·.prevout) then none
      else view.outputFor prevout := by
  unfold updateCoins at h
  rw [Option.map_eq_some_iff] at h
  obtain ⟨st, hSt, hEq⟩ := h
  cases hEq
  rw [outputFor_setCoins, if_neg hOther]
  split at hSt
  case isTrue hCb =>
    cases hSt
    rw [if_neg fun hNot => by rw [hCb] at hNot; cases hNot.1]
  case isFalse hCb =>
    have hFold := foldlM_option_invariant (fun done (s : CStateView × List CTxInUndo) =>
        s.1.outputFor prevout =
          if prevout ∈ done.map (·.prevout) then none else view.outputFor prevout)
      tx.vin (b := (view, [])) (by simp) ?_ hSt
    · rw [hFold]
      simp only [hCb, true_and]
    · intro done txin rest s s' _ hs hStep
      rw [spendInput_outputFor hStep, hs]
      by_cases hThis : prevout = txin.prevout
      · simp [hThis]
      · simp [hThis]

/-! ## What a chain has spent -/

/-- One of the transactions spent the output. -/
def SpentBy (txs : List CTransaction) (prevout : COutPoint) : Prop :=
  ∃ tx ∈ txs, tx.isCoinBase = false ∧ ∃ txin ∈ tx.vin, txin.prevout = prevout

/-- The last transaction comes first.  Each has a new identifier, and spends outputs of those below
it that none of these spent. -/
def Ordered : List CTransaction → Prop
  | [] => True
  | tx :: txs => (tx.hash ∉ txs.map (·.hash) ∧ (tx.isCoinBase = false → ∀ txin ∈ tx.vin,
      txin.prevout.hash ∈ txs.map (·.hash) ∧ ¬ SpentBy txs txin.prevout)) ∧ Ordered txs

theorem Ordered.known (h : Ordered txs) (hSpent : SpentBy txs prevout) :
    prevout.hash ∈ txs.map (·.hash) := by
  induction txs with
  | nil =>
    obtain ⟨tx, ht, -⟩ := hSpent
    cases ht
  | cons tx txs ih =>
    obtain ⟨t, ht, hCb, txin, hIn, rfl⟩ := hSpent
    rcases mem_cons.mp ht with rfl | hOld
    · exact mem_cons_of_mem _ (h.1.2 hCb txin hIn).1
    · exact mem_cons_of_mem _ (ih h.2 ⟨t, hOld, hCb, txin, hIn, rfl⟩)

/-- The transactions connected so far, the last one first, against the coins: every unspent output
belongs to one of them, and what they spent is gone. -/
structure TxHistory (txs : List CTransaction) (view : CStateView) : Prop where
  ordered : Ordered txs
  known : ∀ txid coins, view.coins[txid]? = some coins → txid ∈ txs.map (·.hash)
  spent : ∀ prevout, SpentBy txs prevout → view.outputFor prevout = none

theorem txHistory_empty : TxHistory [] .empty := by
  refine ⟨trivial, fun txid coins h => ?_, fun prevout ⟨tx, ht, _⟩ => by cases ht⟩
  simp [CStateView.empty] at h

theorem TxHistory.congr
    (h : TxHistory txs view) (hCoins : view'.coins = view.coins) : TxHistory txs view' := by
  refine ⟨h.ordered, fun txid coins hc => h.known txid coins (hCoins ▸ hc), fun prevout hSpent => ?_⟩
  rw [← h.spent prevout hSpent, CStateView.outputFor, CStateView.outputFor, hCoins]

/-- An output that is there belongs to a connected transaction. -/
theorem TxHistory.known_outputFor (h : TxHistory txs view) {out : CTxOut}
    (hOut : view.outputFor prevout = some out) : prevout.hash ∈ txs.map (·.hash) := by
  obtain ⟨coins, hCoins, -⟩ := Option.bind_eq_some_iff.mp hOut
  exact h.known _ _ hCoins

theorem haveInputs_outputFor (hCb : tx.isCoinBase = false) (h : view.haveInputs tx = true) :
    ∀ txin ∈ tx.vin, ∃ out, view.outputFor txin.prevout = some out := by
  intro txin hIn
  rw [CStateView.haveInputs, hCb, Bool.false_or, all_eq_true] at h
  exact Option.isSome_iff_exists.mp (h txin hIn)

/-- **One transaction.** A transaction with a new identifier whose inputs are there adds itself
to the history. -/
theorem TxHistory.connect (h : TxHistory txs view) (hNew : tx.hash ∉ txs.map (·.hash))
    (hInputs : tx.isCoinBase = false → view.haveInputs tx = true)
    (hUpdate : updateCoins view tx nHeight = some (view', undo)) :
    TxHistory (tx :: txs) view' := by
  refine ⟨⟨⟨hNew, fun hCb txin hIn => ?_⟩, h.ordered⟩, fun txid coins hCoins => ?_, ?_⟩
  · obtain ⟨out, hOut⟩ := haveInputs_outputFor hCb (hInputs hCb) txin hIn
    refine ⟨h.known_outputFor hOut, fun hSpent => ?_⟩
    rw [h.spent _ hSpent] at hOut
    cases hOut
  · have hOrigin := updateCoins_origin hUpdate hCoins
    by_cases hEq : tx.hash = txid
    · simp [hEq]
    · rw [if_neg hEq] at hOrigin
      obtain ⟨c, hc, -⟩ := Option.map_eq_some_iff.mp hOrigin.symm
      exact mem_cons_of_mem _ (h.known txid c hc)
  · rintro prevout ⟨t, ht, hCb, txin, hIn, rfl⟩
    rcases mem_cons.mp ht with rfl | hOld
    · obtain ⟨out, hOut⟩ := haveInputs_outputFor hCb (hInputs hCb) txin hIn
      have hOther : txin.prevout.hash ≠ t.hash := fun hEq => hNew (hEq ▸ h.known_outputFor hOut)
      rw [updateCoins_outputFor hUpdate hOther, if_pos ⟨hCb, mem_map_of_mem hIn⟩]
    · have hSpent : SpentBy txs txin.prevout := ⟨t, hOld, hCb, txin, hIn, rfl⟩
      have hOther : txin.prevout.hash ≠ tx.hash := fun hEq => hNew (hEq ▸ h.ordered.known hSpent)
      rw [updateCoins_outputFor hUpdate hOther, h.spent _ hSpent]
      split <;> rfl

/-- A restored output is the only one that can come back. -/
theorem applyTxInUndo_outputFor {undo : CTxInUndo} {q : COutPoint} (hOther : q ≠ prevout)
    (hNone : view.outputFor q = none) :
    (applyTxInUndo undo view prevout).2.outputFor q = none := by
  rw [applyTxInUndo, outputFor_setCoins]
  split
  case isFalse => exact hNone
  case isTrue hHash =>
    have hIndex : q.n ≠ prevout.n := fun hEq => hOther (by cases q; cases prevout; simp_all)
    refine (CCoins.available_set_resize _ _ _ _).trans ((if_neg hIndex).trans ?_)
    -- the entry was cleared, or is the one that was there
    split
    · rfl
    · rw [← hHash, CStateView.coinsOf_available]
      exact hNone

/-- What can be there after inputs are restored. -/
theorem restoreInputs_origin (l : List (CTxIn × CTxInUndo)) (st : Bool × CStateView) :
    (∀ txid coins, (l.foldr undoInput st).2.coins[txid]? = some coins →
      (∃ c, st.2.coins[txid]? = some c) ∨ ∃ it ∈ l, it.1.prevout.hash = txid) ∧
    ∀ q, (∀ it ∈ l, it.1.prevout ≠ q) → st.2.outputFor q = none →
      (l.foldr undoInput st).2.outputFor q = none := by
  induction l with
  | nil => exact ⟨fun txid coins h => .inl ⟨coins, h⟩, fun q _ h => h⟩
  | cons it rest ih =>
    refine ⟨fun txid coins h => ?_, fun q hOthers hNone => ?_⟩
    · rw [foldr_cons, undoInput, applyTxInUndo, CStateView.getElem?_setCoins] at h
      split at h
      case isTrue hHash => exact .inr ⟨it, mem_cons_self, hHash⟩
      case isFalse =>
        exact (ih.1 txid coins h).imp_right fun ⟨it', hIt', hHash⟩ =>
          ⟨it', mem_cons_of_mem it hIt', hHash⟩
    · refine applyTxInUndo_outputFor (hOthers it mem_cons_self).symm (ih.2 q ?_ hNone)
      exact fun it' hIt' => hOthers it' (mem_cons_of_mem it hIt')

/-- **One transaction back.** With any undo data, the last transaction leaves the history. -/
theorem TxHistory.disconnect {o : Option (List CTxInUndo)} {st st' : Bool × CStateView}
    (h : TxHistory (tx :: txs) st.2) (hUndo : o ≠ none → tx.isCoinBase = false)
    (hStep : disconnectTx nHeight (tx, o) st = some st') : TxHistory txs st'.2 := by
  obtain ⟨⟨⟨hNew, hSpends⟩, hOrdered⟩, hKnown, hSpent⟩ := h
  -- without its outputs the view holds those of the other transactions
  have hRemoved : ∀ txid coins, (removeOutputs nHeight tx st.2).2.coins[txid]? = some coins →
      txid ∈ txs.map (·.hash) := by
    intro txid coins hCoins
    rw [removeOutputs, CStateView.getElem?_setCoins] at hCoins
    split at hCoins
    · cases hCoins
    case isFalse hHash =>
      exact (mem_cons.mp (hKnown txid coins hCoins)).resolve_left (Ne.symm hHash)
  have hGone : ∀ prevout, SpentBy txs prevout →
      (removeOutputs nHeight tx st.2).2.outputFor prevout = none := by
    rintro prevout ⟨t, ht, hRest⟩
    rw [removeOutputs, outputFor_setCoins]
    split
    · rfl
    · exact hSpent prevout ⟨t, mem_cons_of_mem tx ht, hRest⟩
  unfold disconnectTx at hStep
  split at hStep
  case h_1 =>
    cases hStep
    exact ⟨hOrdered, hRemoved, hGone⟩
  case h_2 vprevout hSome =>
    obtain rfl : o = some vprevout := hSome
    have hInputs := hSpends (hUndo (by simp))
    split at hStep
    · cases hStep
    cases hStep
    obtain ⟨hCoins, hOuts⟩ := restoreInputs_origin (tx.vin.zip vprevout)
      (st.1 && (removeOutputs nHeight tx st.2).1, (removeOutputs nHeight tx st.2).2)
    refine ⟨hOrdered, fun txid coins hc => ?_, fun prevout hOld => hOuts prevout ?_ (hGone _ hOld)⟩
    · rcases hCoins txid coins hc with ⟨c, hc⟩ | ⟨it, hIt, rfl⟩
      · exact hRemoved txid c hc
      · exact (hInputs it.1 (of_mem_zip hIt).1).1
    · rintro it hIt rfl
      exact (hInputs it.1 (of_mem_zip hIt).1).2 hOld

/-- The identifiers are hashes: transactions that share one have the same inputs. -/
def HonestIds (txs : List CTransaction) : Prop :=
  ∀ tx ∈ txs, ∀ tx' ∈ txs, tx.hash = tx'.hash → tx.vin = tx'.vin

/-- A transaction that is not a coinbase and spends available outputs is new. -/
theorem TxHistory.new (h : TxHistory txs view)
    (hIds : HonestIds (tx :: txs)) (hCb : tx.isCoinBase = false)
    (hVin : tx.vin ≠ []) (hInputs : view.haveInputs tx = true) :
    tx.hash ∉ txs.map (·.hash) := by
  intro hMem
  obtain ⟨t, ht, hHash⟩ := mem_map.mp hMem
  have hSame : t.vin = tx.vin :=
    hIds t (mem_cons_of_mem tx ht) tx mem_cons_self hHash
  have hCb' : t.isCoinBase = false := by
    rw [CTransaction.isCoinBase, hSame]
    exact hCb
  obtain ⟨txin, hIn⟩ := exists_mem_of_ne_nil _ hVin
  obtain ⟨out, hOut⟩ := haveInputs_outputFor hCb hInputs txin hIn
  rw [h.spent txin.prevout ⟨t, ht, hCb', txin, hSame ▸ hIn, rfl⟩] at hOut
  cases hOut

/-! ## Blocks -/

theorem HonestIds.subset {txs' : List CTransaction} (h : HonestIds txs)
    (hSub : ∀ tx ∈ txs', tx ∈ txs) : HonestIds txs' :=
  fun tx ht tx' ht' => h tx (hSub tx ht) tx' (hSub tx' ht')

/-- **One block.** If the coinbase of an accepted block is new, so are all its transactions, and
they add themselves to the history. -/
theorem TxHistory.connectBlock {node : Node} {pindex : CBlockIndex}
    {pprev : Chain} {fund : Fund} {recorded : RecordedVotes} {r : Connected}
    (h : TxHistory txs view) (hIds : HonestIds (block.vtx.reverse ++ txs))
    (hCoinbase : ∀ coinbase, block.vtx.head? = some coinbase →
      coinbase.hash ∉ txs.map (·.hash)) (hCheck : checkBlock node block = true)
    (run : ConnectRun node block pindex pprev fund recorded view r) :
    TxHistory (block.vtx.reverse ++ txs) r.view ∧
      ∀ tx ∈ block.vtx, tx.hash ∉ txs.map (·.hash) := by
  obtain ⟨coinbase, rest, hVtx, hFirst, -, hTxs, -⟩ := checkBlock_vtx hCheck
  obtain ⟨v, hv, hHistory, hNew⟩ := run.coins_invariant
    (fun done v => TxHistory (done.reverse ++ txs) v ∧ ∀ tx ∈ done, tx.hash ∉ txs.map (·.hash))
    ⟨h, fun tx ht => by cases ht⟩
    (by
      rintro done tx rest' v v' undo hSplit ⟨hv, hDone⟩ hInputs hUpdate
      have hHave : tx.isCoinBase = false → v.haveInputs tx = true := by
        intro hCb
        have hOk := hInputs hCb
        simp only [checkTxInputs, Bool.and_eq_true] at hOk
        exact hOk.1.1
      have hNew : tx.hash ∉ (done.reverse ++ txs).map (·.hash) := by
        cases done with
        | nil => exact hCoinbase tx (by rw [hSplit]; rfl)
        | cons first done =>
          -- only the first transaction is a coinbase
          have hMem : tx ∈ rest := by
            rw [hVtx] at hSplit
            rw [(cons.inj hSplit).2]
            exact mem_append_right _ mem_cons_self
          obtain ⟨hTx, hCb⟩ := hTxs tx hMem
          refine hv.new (hIds.subset fun t ht => ?_) hCb (checkTransaction_vin hTx) (hHave hCb)
          rw [hSplit]
          simp only [mem_append, mem_cons, mem_reverse] at ht ⊢
          tauto
      refine ⟨?_, fun t ht => ?_⟩
      · rw [reverse_concat]
        exact hv.connect hNew hHave hUpdate
      · rcases mem_append.mp ht with hOld | hThis
        · exact hDone t hOld
        · obtain rfl := mem_singleton.mp hThis
          exact fun hMem => hNew (by rw [map_append]; exact mem_append_right _ hMem))
  have hCoins : r.view.coins = v.coins := by
    have hResult : r.view = run.cb.view := congrArg Connected.view run.result
    rw [hResult, checkCoinbase_frame run.payout, hv]
  exact ⟨hHistory.congr hCoins, hNew⟩

/-! ## Chains -/

/-- The transactions of the blocks; the last block comes first. -/
def txsOf : List CBlock → List CTransaction
  | [] => []
  | block :: blocks => block.vtx.reverse ++ txsOf blocks

instance (txs : List CTransaction) : Decidable (HonestIds txs) := by
  unfold HonestIds
  infer_instance

/-- The coinbase of the block shares its identifier with no transaction of the blocks below, and
transactions of all these that share one have the same inputs. -/
structure NewCoinbase (block : CBlock) (blocks : List CBlock) : Prop where
  ids : HonestIds (txsOf (block :: blocks))
  coinbase : ∀ coinbase ∈ block.vtx.head?, coinbase.hash ∉ (txsOf blocks).map (·.hash)

instance (block : CBlock) (blocks : List CBlock) : Decidable (NewCoinbase block blocks) :=
  decidable_of_iff (HonestIds (txsOf (block :: blocks)) ∧
    ∀ coinbase ∈ block.vtx.head?, coinbase.hash ∉ (txsOf blocks).map (·.hash))
    ⟨fun h => ⟨h.1, h.2⟩, fun h => ⟨h.1, h.2⟩⟩

/-- The blocks on top of the genesis block, the last one first, and the state they lead to.  Blocks
with new coinbases are connected; the last one may be disconnected, with any undo data; and blocks
that are rejected leave their recorded votes only. -/
inductive ActiveChain (node : Node) (genesis : CBlockIndex) : List CBlock → ChainState → Prop
  | genesis : ActiveChain node genesis [] (.genesis genesis)
  | connect {blocks : List CBlock} {st : ChainState} {block : CBlock} {pindex : CBlockIndex}
      {r : Connected} {v : CStateView × Fund × VoteCache} (h : ActiveChain node genesis blocks st)
      (hExt : Extends node st.chain block pindex) (hGenesis : block.hash ≠ node.params.genesis.hash)
      (hNew : NewCoinbase block blocks)
      (hConnect : connectBlock node block pindex st.chain st.fund st.recorded st.view = .ok r)
      (hVote : voteStep node.toEnv r.recorded (pindex :: st.chain) false r.fund r.view st.cache =
        some v) :
      ActiveChain node genesis (block :: blocks)
        ⟨pindex :: st.chain, v.1, v.2.1, r.recorded, v.2.2⟩
  | reject {blocks : List CBlock} {st : ChainState} (h : ActiveChain node genesis blocks st)
      (recorded : RecordedVotes) :
      ActiveChain node genesis blocks { st with recorded := recorded }
  | disconnect {blocks : List CBlock} {st st' : ChainState} {block : CBlock}
      {vtxundo : List (List CTxInUndo)} {fund : Fund}
      (h : ActiveChain node genesis (block :: blocks) st)
      (hDisconnect : disconnectTip node block vtxundo fund st = some st') :
      ActiveChain node genesis blocks st'

/-- Transactions leave the history, the last one first. -/
theorem TxHistory.disconnectTxs {l : List (CTransaction × Option (List CTxInUndo))}
    {st st' : Bool × CStateView} (h : TxHistory ((l.map Prod.fst).reverse ++ txs) st.2)
    (hUndo : ∀ it ∈ l, it.2 ≠ none → it.1.isCoinBase = false)
    (hFold : l.foldrM (disconnectTx nHeight) st = some st') : TxHistory txs st'.2 := by
  induction l generalizing txs st' with
  | nil =>
    cases hFold
    exact h
  | cons it rest ih =>
    rw [foldrM_cons, Option.bind_eq_bind, Option.bind_eq_some_iff] at hFold
    obtain ⟨mid, hRest, hTx⟩ := hFold
    rw [map_cons, reverse_cons, append_assoc] at h
    have hMid := ih h (fun it' hIt' => hUndo it' (mem_cons_of_mem it hIt')) hRest
    exact hMid.disconnect (hUndo it mem_cons_self) hTx

/-- **One block back.** -/
theorem TxHistory.disconnectCoins {vtxundo : List (List CTxInUndo)} {fClean : Bool}
    (h : TxHistory (block.vtx.reverse ++ txs) view)
    (hOthers : ∀ tx ∈ block.vtx.tail, tx.isCoinBase = false)
    (hCoins : disconnectCoins nHeight block.vtx vtxundo view = some (fClean, view')) :
    TxHistory txs view' := by
  unfold Electrum.disconnectCoins at hCoins
  split at hCoins
  · cases hCoins
  case isFalse hLength =>
    refine TxHistory.disconnectTxs ?_ ?_ hCoins
    · rw [map_fst_zip (by rw [length_cons, length_map]; omega)]
      exact h
    · intro it hIt hSome
      -- the first transaction has no undo data
      cases hVtx : block.vtx with
      | nil =>
        rw [hVtx] at hIt
        cases hIt
      | cons coinbase rest =>
        rw [hVtx] at hIt hOthers
        rcases mem_cons.mp hIt with rfl | hRest
        · exact absurd rfl hSome
        · exact hOthers it.1 (of_mem_zip hRest).1

namespace ActiveChain

variable {node : Node} {genesis : CBlockIndex} {blocks : List CBlock} {st : ChainState}

theorem rangeInv (h : ActiveChain node genesis blocks st) : RangeInv st.view := by
  induction h with
  | genesis => exact rangeInv_genesis genesis
  | connect _ hExt _ _ hConnect hVote ih =>
    refine connectTip_rangeInv ih hExt ?_
    rw [connectTip, hConnect]
    exact congrArg (Option.map _) hVote
  | reject _ recorded ih => exact ih
  | disconnect _ hDisconnect ih => exact disconnectTip_rangeInv ih hDisconnect

/-- **Chains.** A chain whose coinbases are all new has a history, and of its transactions only the
first of each block is a coinbase. -/
theorem history (h : ActiveChain node genesis blocks st) : TxHistory (txsOf blocks) st.view ∧
    ∀ block ∈ blocks, ∀ tx ∈ block.vtx.tail, tx.isCoinBase = false := by
  induction h with
  | genesis => exact ⟨txHistory_empty, fun block hMem => absurd hMem not_mem_nil⟩
  | @connect blocks st block pindex r v h hExt hGenesis hNew hConnect hVote ih =>
    obtain ⟨hCheck, hRest⟩ := connectBlock_ok hConnect
    obtain ⟨-, ⟨run⟩⟩ := hRest.resolve_left fun hg => hGenesis hg.1
    have hCoins := voteStep_coins (connectBlock_rangeInv h.rangeInv hExt.hashes hConnect).firm hVote
    refine ⟨(ih.1.connectBlock hNew.ids hNew.coinbase hCheck run).1.congr hCoins, ?_⟩
    intro b hb
    rcases mem_cons.mp hb with rfl | hOld
    · obtain ⟨coinbase, rest, hVtx, -, -, hOthers, -⟩ := checkBlock_vtx hCheck
      rw [hVtx]
      exact fun tx ht => (hOthers tx ht).2
    · exact ih.2 b hOld
  | reject _ recorded ih => exact ⟨ih.1.congr rfl, ih.2⟩
  | @disconnect blocks st st' block vtxundo fund h hDisconnect ih =>
    obtain ⟨pindex, fClean, w, -, hBlock, hCoins⟩ := disconnectTip_coins h.rangeInv hDisconnect
    have hBack := ih.1.disconnectCoins (ih.2 block mem_cons_self) hBlock
    exact ⟨hBack.congr hCoins, fun b hb => ih.2 b (mem_cons_of_mem block hb)⟩

end ActiveChain

/-- **No overwriting.** On a chain of blocks that were connected with new coinbases, over any number
of disconnected ones, no accepted block with a new coinbase has a transaction under whose identifier
the view still has unspent outputs. -/
theorem connectBlock_keeps_unspent {node : Node} {genesis : CBlockIndex} {blocks : List CBlock}
    {st : ChainState} {block : CBlock} {pindex : CBlockIndex} {r : Connected}
    (hChain : ActiveChain node genesis blocks st) (hNew : NewCoinbase block blocks)
    (hGenesis : block.hash ≠ node.params.genesis.hash)
    (hConnect : connectBlock node block pindex st.chain st.fund st.recorded st.view = .ok r) :
    overwritesCoins st.view block = false := by
  have hHistory := hChain.history.1
  obtain ⟨hCheck, hRest⟩ := connectBlock_ok hConnect
  obtain ⟨-, ⟨run⟩⟩ := hRest.resolve_left fun hg => hGenesis hg.1
  have hTxs := (hHistory.connectBlock hNew.ids hNew.coinbase hCheck run).2
  rw [overwritesCoins, any_eq_false]
  intro tx ht hContains
  rw [Std.ExtTreeMap.contains_eq_isSome_getElem?] at hContains
  obtain ⟨coins, hCoins⟩ := Option.isSome_iff_exists.mp hContains
  exact hTxs tx ht (hHistory.known tx.hash coins hCoins)

/-! ## A repeated coinbase -/

/-- A coinbase for either of the first two blocks. -/
def twinCoinbase : CTransaction :=
  ⟨1001, 1, 2, [⟨⟨0, 2 ^ 32 - 1⟩⟩], [⟨getBlockSubsidy 2, voterScript⟩], ""⟩

/-- Two blocks with the same coinbase. -/
def twinBlocks : CBlock × CBlock := (⟨1, 1, 0, [twinCoinbase]⟩, ⟨2, 2, 0, [twinCoinbase]⟩)

/-- A node of the regression test network that knows the blocks. -/
def Node.testing (blocks : List CBlock) : Node :=
  { Node.developing blocks [] with
    params := regTestParams devGenesis devParams.genesis_single devParams.genesis_worthless }

/-- Connect a block with a new coinbase, or disconnect the last one with undo data. -/
def ActiveChain.move (node : Node) (s : List CBlock × ChainState) :
    CBlock ⊕ List (List CTxInUndo) → Option (List CBlock × ChainState)
  | .inl block =>
    let pindex := childIndex s.2.chain block
    if Extends node s.2.chain block pindex ∧ block.hash ≠ node.params.genesis.hash ∧
        NewCoinbase block s.1 then
      match connectBlock node block pindex s.2.chain s.2.fund s.2.recorded s.2.view with
      | .error _ => none
      | .ok r => (voteStep node.toEnv r.recorded (pindex :: s.2.chain) false r.fund r.view
          s.2.cache).map fun v => (block :: s.1, ⟨pindex :: s.2.chain, v.1, v.2.1, r.recorded, v.2.2⟩)
    else none
  | .inr vtxundo =>
    match s.1 with
    | [] => none
    | block :: blocks => (disconnectTip node block vtxundo s.2.fund s.2).map fun st => (blocks, st)

theorem ActiveChain.of_moves {node : Node} {genesis : CBlockIndex} {s : List CBlock × ChainState}
    {moves : List (CBlock ⊕ List (List CTxInUndo))}
    (h : moves.foldlM (move node) ([], .genesis genesis) = some s) :
    ActiveChain node genesis s.1 s.2 := by
  refine foldlM_option_invariant (fun _ (s : List CBlock × ChainState) =>
    ActiveChain node genesis s.1 s.2) moves .genesis ?_ h
  rintro done m rest ⟨blocks, st⟩ s' - hChain hStep
  cases m with
  | inl block =>
    dsimp only [move] at hStep
    split at hStep
    case isFalse => cases hStep
    case isTrue hOk =>
      split at hStep
      · cases hStep
      case h_2 r hConnect =>
        obtain ⟨v, hVote, rfl⟩ := Option.map_eq_some_iff.mp hStep
        exact hChain.connect hOk.1 hOk.2.1 hOk.2.2 hConnect hVote
  | inr vtxundo =>
    dsimp only [move] at hStep
    split at hStep
    · cases hStep
    case h_2 block blocks =>
      obtain ⟨st', hDisconnect, rfl⟩ := Option.map_eq_some_iff.mp hStep
      exact hChain.disconnect hDisconnect

/-- A second block, which spends the output of the transaction in the first one. -/
def laterBlock : CBlock := devBlock 2 [] [⟨2002, 1, 2, [⟨⟨2001, 0⟩⟩], [⟨COIN, voterScript⟩], ""⟩]

/-- Both blocks, the second of which is taken back. -/
def returningMoves : List (CBlock ⊕ List (List CTxInUndo)) :=
  [.inl ownCoinbaseBlock, .inl laterBlock,
    .inr [[⟨⟨COIN, voterScript⟩, false, 1, CTransaction.TXDZEEL_VERSION_V2⟩]]]

/-- The block that was taken back is connected again, on the regression test network. -/
theorem connectBlock_keeps_unspent_returned : ∃ s r,
    returningMoves.foldlM (ActiveChain.move (.testing [ownCoinbaseBlock, laterBlock]))
      ([], .genesis devParams.genesisIndex) = some s ∧
    connectBlock (.testing [ownCoinbaseBlock, laterBlock]) laterBlock
      (childIndex s.2.chain laterBlock) s.2.chain s.2.fund s.2.recorded s.2.view = .ok r ∧
    overwritesCoins s.2.view laterBlock = false := by
  obtain ⟨s, hMoves, r, hConnect, hNew⟩ : ∃ s,
      returningMoves.foldlM (ActiveChain.move (.testing [ownCoinbaseBlock, laterBlock]))
        ([], .genesis devParams.genesisIndex) = some s ∧ ∃ r,
      connectBlock (.testing [ownCoinbaseBlock, laterBlock]) laterBlock
        (childIndex s.2.chain laterBlock) s.2.chain s.2.fund s.2.recorded s.2.view = .ok r ∧
      NewCoinbase laterBlock s.1 := by
    decide +kernel
  exact ⟨s, r, hMoves, hConnect, connectBlock_keeps_unspent (.of_moves hMoves) hNew
    (by decide +kernel) hConnect⟩

/-- The second of two blocks with the same coinbase is accepted and overwrites the first one's
outputs, on a network whose parameters name no block of the chain. -/
theorem connectBlock_overwrites : ∃ st r,
    connectOn (.testing [twinBlocks.1, twinBlocks.2]) [twinBlocks.1] twinBlocks.2 =
      some (st, r) ∧
    st.chain.getAncestor (regTestParams devGenesis rfl rfl).BIP34Height = none ∧
    overwritesCoins st.view twinBlocks.2 = true ∧
    (st.view.coins[twinCoinbase.hash]?).map (·.nHeight) = some 1 ∧
    (r.view.coins[twinCoinbase.hash]?).map (·.nHeight) = some 2 := by
  decide +kernel

end Electrum
