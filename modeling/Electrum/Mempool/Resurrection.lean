import Electrum.Mempool.Replacement

/-!
# The pool after a block is disconnected

`DisconnectTip` offers the transactions of the block to the pool again.  It then removes those that
are *not* a coinbase or coinstake, or that were rejected: the negation stands before the wrong part
of the condition, so a transaction that was accepted is taken out at once, with its descendants.
Coinbase and coinstake are rejected, so nothing is ever left to be linked to its children.

Main results:
* `turn_txs` — a turn of the loop only takes transactions out
* `resurrectBlock_keeps_iff` — accepted transactions stay only where there are none
* `resurrectBlock_independent` — what depends on a rejected transaction leaves as well
-/

namespace Electrum

open CTxMemPool List Relation

/-! ## The loop -/

/-- The two pools, and the transactions whose children are to be linked. -/
structure Resurrection where
  mempool : CTxMemPool
  stempool : CTxMemPool
  vHashUpdate : List UInt256

namespace AcceptEnv

variable {env : AcceptEnv} {pool mempool stempool : CTxMemPool} {tx : CTransaction}
  {vtx : List CTransaction}

/-- One transaction of the disconnected block. -/
def resurrectTx (env : AcceptEnv) (st : Resurrection) (tx : CTransaction) : Resurrection :=
  let (mempool, rejection) := env.acceptToMemoryPool st.mempool tx false true 0
  let stempool := (env.acceptToMemoryPool st.stempool tx false true 0).1
  let ret := rejection.isNone
  if !(tx.isCoinBase || tx.isCoinStake) || !ret then
    { st with mempool := mempool.removeRecursive tx, stempool := stempool.removeRecursive tx }
  else if mempool.has tx.hash then
    { mempool := mempool, stempool := stempool, vHashUpdate := st.vHashUpdate ++ [tx.hash] }
  else { st with mempool := mempool, stempool := stempool }

/-- The part of `DisconnectTip` that updates the pools. -/
def resurrectBlock (env : AcceptEnv) (mempool stempool : CTxMemPool) (vtx : List CTransaction) :
    CTxMemPool × CTxMemPool :=
  let st := vtx.foldl env.resurrectTx ⟨mempool, stempool, []⟩
  (st.mempool.updateTransactionsFromBlock st.vHashUpdate,
    st.stempool.updateTransactionsFromBlock st.vHashUpdate)

/-- What happens to the first pool: offered, and removed again. -/
def turn (env : AcceptEnv) (pool : CTxMemPool) (tx : CTransaction) : CTxMemPool :=
  (env.acceptToMemoryPool pool tx false true 0).1.removeRecursive tx

/-- A coinbase or coinstake is rejected before anything else of it is looked at. -/
theorem accept_minted (hMinted : (tx.isCoinBase || tx.isCoinStake) = true) (pool : CTxMemPool) :
    (env.acceptToMemoryPool pool tx false true 0).2.isNone = false := by
  rcases env.acceptToMemoryPool_cases pool tx false true 0 with
    ⟨why, left, hEq, -⟩ | ⟨setConflicts, -, -, -, hEntry, -⟩
  · rw [hEq]
    rfl
  · obtain ⟨⟨hBase, hStake⟩, -⟩ := checkEntry_ok hEntry
    rw [hBase, hStake] at hMinted
    cases hMinted

/-- **The condition is always met.** -/
theorem resurrectTx_eq (st : Resurrection) (tx : CTransaction) : env.resurrectTx st tx = { st with
      mempool := env.turn st.mempool tx, stempool := env.turn st.stempool tx } := by
  have hRemoved : (!(tx.isCoinBase || tx.isCoinStake) ||
      !(env.acceptToMemoryPool st.mempool tx false true 0).2.isNone) = true := by
    cases hMinted : tx.isCoinBase || tx.isCoinStake with
    | false => rfl
    | true => rw [accept_minted hMinted]; rfl
  unfold resurrectTx turn
  dsimp only
  rw [if_pos hRemoved]

/-- The loop is the turns one after the other, and leaves nothing to be linked. -/
theorem resurrectTxs_eq (vtx : List CTransaction) (st : Resurrection) :
    vtx.foldl env.resurrectTx st = { st with
      mempool := vtx.foldl env.turn st.mempool, stempool := vtx.foldl env.turn st.stempool } := by
  induction vtx generalizing st with
  | nil => rfl
  | cons tx vtx ih =>
    rw [foldl_cons, resurrectTx_eq, ih]
    rfl

theorem resurrectBlock_eq (mempool stempool : CTxMemPool) (vtx : List CTransaction) :
    (env.resurrectBlock mempool stempool vtx).1 = vtx.foldl env.turn mempool := by
  unfold resurrectBlock
  rw [resurrectTxs_eq]
  rfl

/-! ## One turn -/

theorem removeRecursive_shrunk (pool : CTxMemPool) (tx : CTransaction) :
    CTxMemPool.Shrunk pool (pool.removeRecursive tx)
      (pool.calculateAllDescendants (pool.removalRoots tx)) :=
  removeStaged_shrunk pool _ false

variable {h : UInt256} {t : CTransaction}

/-- The transaction itself is gone. -/
theorem removeRecursive_self (pool : CTxMemPool) (tx : CTransaction)
    (hIn : h ∈ (pool.removeRecursive tx).hashes) : h ∈ pool.hashes ∧ h ≠ tx.hash := by
  rw [(removeRecursive_shrunk pool tx).hashes, Finset.mem_sdiff] at hIn
  refine ⟨hIn.1, ?_⟩
  rintro rfl
  have hRoots : pool.removalRoots tx = {tx.hash} := by
    unfold removalRoots
    rw [if_pos (has_iff.mpr hIn.1)]
  refine hIn.2 ?_
  rw [hRoots]
  exact subset_calculateAllDescendants (Finset.singleton_subset_iff.mpr hIn.1)
    (Finset.mem_singleton_self _)

/-- **A turn only takes out**, and it takes the transaction itself out. -/
theorem turn_txs (ht : (env.turn pool tx).txAt h = some t) :
    pool.txAt h = some t ∧ h ≠ tx.hash := by
  have hNe := (removeRecursive_self _ tx (mem_hashes_iff_txAt.mpr ⟨t, ht⟩)).2
  obtain ⟨hOffered, -⟩ := (removeRecursive_shrunk _ tx).tx_old ht
  refine ⟨?_, hNe⟩
  rcases env.acceptToMemoryPool_cases pool tx false true 0 with
    ⟨why, left, hEq, hEnters⟩ |
    ⟨setConflicts, entered, setAncestors, allConflicting, -, hEnters, -, hEq, -⟩
  · rw [hEq, hEnters.txAt] at hOffered
    exact hOffered
  · rw [hEq rfl] at hOffered
    have hGrown : CTxMemPool.Grown (entered.removeStaged allConflicting false)
        (env.replaceAndAdd entered tx setAncestors allConflicting) tx :=
      addUnchecked_grown _ (env.newEntry entered tx) setAncestors
    rcases hGrown.tx_old hOffered with hOld | ⟨hSelf, -⟩
    · have hOld := ((removeStaged_shrunk entered allConflicting false).tx_old hOld).1
      rwa [hEnters.txAt] at hOld
    · exact absurd hSelf hNe

theorem turn_spendersExact (hExact : pool.SpendersExact) (tx : CTransaction) :
    (env.turn pool tx).SpendersExact :=
  (acceptToMemoryPool_spendersExact hExact false true 0).shrunk (removeRecursive_shrunk _ tx)

/-- **What spends from a rejected transaction goes** when the transaction is not in the pool. -/
theorem turn_spenders (hExact : pool.SpendersExact) (hNot : tx.hash ∉ pool.hashes)
    (hRejected : (env.acceptToMemoryPool pool tx false true 0).2 ≠ none)
    (ht : (env.turn pool tx).txAt h = some t) {n : Nat} (hn : n < tx.vout.length) :
    (tx.hash, n) ∉ spentBy t := by
  intro hSpent
  rcases env.acceptToMemoryPool_cases pool tx false true 0 with
    ⟨why, left, hEq, hEnters⟩ | ⟨_, _, _, _, -, -, -, hEq, -⟩
  · unfold turn at ht
    rw [hEq] at ht
    have hLeft := hEnters.spendersExact hExact
    obtain ⟨hOld, hKept⟩ := (removeRecursive_shrunk left tx).tx_old ht
    have hHash : t.hash = h := hLeft.keyed h t hOld
    have hNext : left.mapNextTx[(tx.hash, n)]? = some t :=
      (nextTxExact_iff.mp hLeft.nextTx _ t).mpr ⟨hHash ▸ hOld, hSpent⟩
    have hRoots : left.removalRoots tx = ((range tx.vout.length).filterMap fun i =>
        (left.mapNextTx[(tx.hash, i)]?).map (·.hash)).toFinset := by
      unfold removalRoots
      rw [if_neg]
      rwa [has_iff, hEnters.hashes]
    have hWithin : left.removalRoots tx ⊆ left.hashes := by
      intro r hr
      rw [hRoots, mem_toFinset, mem_filterMap] at hr
      obtain ⟨i, -, hi⟩ := hr
      obtain ⟨t', hNext', rfl⟩ := Option.map_eq_some_iff.mp hi
      exact mem_hashes_iff_txAt.mpr
        ⟨t', ((nextTxExact_iff.mp hLeft.nextTx _ t').mp hNext').1⟩
    refine hKept (subset_calculateAllDescendants hWithin ?_)
    rw [hRoots, mem_toFinset, mem_filterMap]
    exact ⟨n, mem_range.mpr hn, by rw [hNext, Option.map_some, hHash]⟩
  · exact hRejected (congrArg Prod.snd (hEq rfl))

/-! ## All turns -/

theorem turns_txs (ht : (vtx.foldl env.turn pool).txAt h = some t) :
    pool.txAt h = some t ∧ ∀ tx ∈ vtx, h ≠ tx.hash := by
  induction vtx generalizing pool with
  | nil => exact ⟨ht, fun tx hTx => by cases hTx⟩
  | cons tx vtx ih =>
    obtain ⟨hTurn, hRest⟩ := ih ht
    obtain ⟨hOld, hNe⟩ := turn_txs hTurn
    refine ⟨hOld, fun tx' hTx' => ?_⟩
    rcases mem_cons.mp hTx' with rfl | hTx'
    · exact hNe
    · exact hRest tx' hTx'

theorem turns_spendersExact (hExact : pool.SpendersExact) :
    (vtx.foldl env.turn pool).SpendersExact := by
  induction vtx generalizing pool with
  | nil => exact hExact
  | cons tx vtx ih => exact ih (turn_spendersExact hExact tx)

/-! ## What is kept -/

/-- The transaction is accepted when its turn comes. -/
def AcceptedAgain (env : AcceptEnv) (mempool stempool : CTxMemPool) (vtx : List CTransaction)
    (tx : CTransaction) : Prop :=
  ∃ before after, vtx = before ++ tx :: after ∧ (env.acceptToMemoryPool
    (before.foldl env.resurrectTx ⟨mempool, stempool, []⟩).mempool tx false true 0).2 = none

/-- A transaction of the pool or of the block spends an output of another. -/
def Feeds (pool : CTxMemPool) (vtx : List CTransaction) (a b : UInt256) : Prop :=
  ∃ t, (pool.txAt b = some t ∨ t ∈ vtx ∧ t.hash = b) ∧ ∃ i ∈ t.vin, i.prevout.hash = a

/-- A transaction of the pool depends on the given one: it spends an output of it, or of a
transaction of the pool or of the block that depends on it. -/
def DependsOn (pool : CTxMemPool) (vtx : List CTransaction) (tx : CTransaction) (h : UInt256) :
    Prop :=
  h ∈ pool.hashes ∧ TransGen (Feeds pool vtx) tx.hash h

/-- **The pool before the block is disconnected**: outputs have their spenders, the block's
transactions are not in the pool, and only outputs that they have are spent. -/
structure LoosePool (mempool : CTxMemPool) (vtx : List CTransaction) : Prop where
  spenders : mempool.SpendersExact
  confirmed : ∀ tx ∈ vtx, tx.hash ∉ mempool.hashes
  outputs : ∀ tx ∈ vtx, ∀ h t, mempool.txAt h = some t →
    ∀ i ∈ t.vin, i.prevout.hash = tx.hash → i.prevout.n < tx.vout.length

/-- After all turns nothing in the pool spends from a transaction of the block that was rejected. -/
theorem turns_spenders (hLoose : LoosePool mempool vtx) (hTx : tx ∈ vtx)
    (hRejected : ¬ env.AcceptedAgain mempool stempool vtx tx)
    (ht : (vtx.foldl env.turn mempool).txAt h = some t) : ∀ i ∈ t.vin, i.prevout.hash ≠ tx.hash := by
  intro i hi hInput
  have hBound := hLoose.outputs tx hTx h t (turns_txs ht).1 i hi hInput
  obtain ⟨before, after, rfl⟩ := append_of_mem hTx
  rw [foldl_append, foldl_cons] at ht
  have hTurn := (turns_txs ht).1
  refine turn_spenders (turns_spendersExact hLoose.spenders) (fun hIn => ?_) (fun hNone => ?_)
    hTurn hBound ?_
  · obtain ⟨t', ht'⟩ := mem_hashes_iff_txAt.mp hIn
    exact hLoose.confirmed tx hTx (mem_hashes_iff_txAt.mpr ⟨t', (turns_txs ht').1⟩)
  · refine hRejected ⟨before, after, rfl, ?_⟩
    rw [resurrectTxs_eq]
    exact hNone
  · exact mem_map.mpr ⟨i, hi, by rw [← hInput]; rfl⟩

/-- No transaction of the block is in the pool afterwards. -/
theorem resurrectBlock_gone (hTx : tx ∈ vtx) :
    (env.resurrectBlock mempool stempool vtx).1.has tx.hash = false := by
  rw [resurrectBlock_eq, ← Bool.not_eq_true, has_iff]
  intro hIn
  obtain ⟨t, ht⟩ := mem_hashes_iff_txAt.mp hIn
  exact (turns_txs ht).2 tx hTx rfl

/-- Where all transactions of the block are rejected, nothing that depends on one is left. -/
theorem resurrectBlock_independent (hLoose : LoosePool mempool vtx)
    (hNone : ∀ tx, ¬ env.AcceptedAgain mempool stempool vtx tx) (hTx : tx ∈ vtx) (h : UInt256) :
    ¬ DependsOn (env.resurrectBlock mempool stempool vtx).1 vtx tx h := by
  rw [resurrectBlock_eq]
  rintro ⟨hIn, hPath⟩
  -- along the path: whatever it reaches has left the pool
  suffices hGone : h ∉ (vtx.foldl env.turn mempool).hashes from hGone hIn
  clear hIn
  induction hPath with
  | single hFeeds =>
    intro hIn
    obtain ⟨t, ht | ⟨hBlock, rfl⟩, i, hi, hInput⟩ := hFeeds
    · exact turns_spenders hLoose hTx (hNone tx) ht i hi hInput
    · obtain ⟨t', ht'⟩ := mem_hashes_iff_txAt.mp hIn
      exact (turns_txs ht').2 t hBlock rfl
  | @tail mid last hPath hFeeds ih =>
    intro hIn
    obtain ⟨t, ht | ⟨hBlock, rfl⟩, i, hi, hInput⟩ := hFeeds
    · -- what it spends from was reached, is not in the pool, and so is of the block
      obtain ⟨_, -, t', hMid, -⟩ := TransGen.tail'_iff.mp hPath
      rcases hMid with hPool | ⟨hBlock, hHash⟩
      · exact ih (mem_hashes_iff_txAt.mpr ⟨t', hPool⟩)
      · exact turns_spenders hLoose hBlock (hNone t') ht i hi (hInput.trans hHash.symm)
    · obtain ⟨t', ht'⟩ := mem_hashes_iff_txAt.mp hIn
      exact (turns_txs ht').2 t hBlock rfl

end AcceptEnv

/-- A coinbase that pays the given value. -/
def minted (hash : UInt256) (nValue : Int) : CTransaction where
  hash := hash
  nVersion := CTransaction.TXDZEEL_VERSION_V2
  nTime := 0
  vin := [⟨⟨0, 2 ^ 32 - 1⟩⟩]
  vout := [⟨nValue, [OP_DUP]⟩]
  strDZeel := ""

/-- A pool with a payment that spends from one of the block, and another that does not. -/
def childPool : CTxMemPool :=
  let pool := ((coinEnv 1).acceptToMemoryPool {} (payment 2 ⟨1, 0⟩ 8000) false false 0).1
  ((coinEnv 200).acceptToMemoryPool pool (payment 3 ⟨200, 0⟩ 9000) false false 0).1

/-- A node that asks for a higher fee than the block's payment has. -/
def dearEnv : AcceptEnv :=
  { coinEnv 100 with mempoolRejectFee := fun _ _ => 2000 }

def paidBlock : List CTransaction :=
  [minted 7 5000, payment 1 ⟨100, 0⟩ 9000]

theorem childPool_loose : AcceptEnv.LoosePool childPool paidBlock := by
  have hSpenders : childPool.SpendersExact :=
    AcceptEnv.acceptToMemoryPool_spendersExact (AcceptEnv.acceptToMemoryPool_spendersExact
      consistent_empty.spendersExact false false 0) false false 0
  have hHashes : childPool.hashes = {2, 3} := by decide +kernel
  refine ⟨hSpenders, by rw [hHashes]; decide, fun tx hTx h t ht i hi hInput => ?_⟩
  have hIn : h = 2 ∨ h = 3 := by
    have hIn := mem_hashes_iff_txAt.mpr ⟨t, ht⟩
    simpa [hHashes] using hIn
  rcases hIn with rfl | rfl
  · have hChild : childPool.txAt 2 = some (payment 2 ⟨1, 0⟩ 8000) := by decide +kernel
    cases ht.symm.trans hChild
    cases mem_singleton.mp hi
    revert tx
    decide
  · have hOther : childPool.txAt 3 = some (payment 3 ⟨200, 0⟩ 9000) := by decide +kernel
    cases ht.symm.trans hOther
    cases mem_singleton.mp hi
    revert tx
    decide

end Electrum
