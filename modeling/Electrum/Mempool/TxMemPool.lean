import Electrum.Lib.Reach
import Electrum.Dao.Metadata

/-!
# The transaction memory pool

`CTxMemPool` keeps its entries under their hashes, the links between them, and the transaction that
spends each output.  An iterator into `mapTx` is modelled by the hash it stands at, and a set of
iterators by a finite set of hashes, walked in their order.

An entry carries sums over its in-pool ancestors and descendants; these are kept by increments.
The counts, sizes and fees are integers without a bound.  A change of the cost in signature
operations is the exception: `UpdateAncestorState` takes it as an `int`.
-/

namespace Electrum

/-! ## Entries -/

/-- What the package sums need of an entry.  `nTxSize` is the value of `GetTxSize`. -/
structure CTxMemPoolEntry where
  tx : CTransaction
  nFee : Int
  nTxSize : Int
  nTime : Int
  sigOpCost : Int
  feeDelta : Int
  nCountWithDescendants : Int
  nSizeWithDescendants : Int
  nModFeesWithDescendants : Int
  nCountWithAncestors : Int
  nSizeWithAncestors : Int
  nModFeesWithAncestors : Int
  nSigOpCostWithAncestors : Int
  deriving DecidableEq, Repr

namespace CTxMemPoolEntry

/-- The constructor: an entry alone. -/
def new (tx : CTransaction) (nFee nTime nTxSize sigOpCost : Int) : CTxMemPoolEntry where
  tx := tx
  nFee := nFee
  nTxSize := nTxSize
  nTime := nTime
  sigOpCost := sigOpCost
  feeDelta := 0
  nCountWithDescendants := 1
  nSizeWithDescendants := nTxSize
  nModFeesWithDescendants := nFee
  nCountWithAncestors := 1
  nSizeWithAncestors := nTxSize
  nModFeesWithAncestors := nFee
  nSigOpCostWithAncestors := sigOpCost

def getModifiedFee (e : CTxMemPoolEntry) : Int := e.nFee + e.feeDelta

def updateFeeDelta (newFeeDelta : Int) (e : CTxMemPoolEntry) : CTxMemPoolEntry :=
  { e with
    nModFeesWithDescendants := e.nModFeesWithDescendants + (newFeeDelta - e.feeDelta)
    nModFeesWithAncestors := e.nModFeesWithAncestors + (newFeeDelta - e.feeDelta)
    feeDelta := newFeeDelta }

def updateDescendantState (modifySize modifyFee modifyCount : Int) (e : CTxMemPoolEntry) :
    CTxMemPoolEntry :=
  { e with
    nSizeWithDescendants := e.nSizeWithDescendants + modifySize
    nModFeesWithDescendants := e.nModFeesWithDescendants + modifyFee
    nCountWithDescendants := e.nCountWithDescendants + modifyCount }

def updateAncestorState (modifySize modifyFee modifyCount modifySigOps : Int)
    (e : CTxMemPoolEntry) : CTxMemPoolEntry :=
  { e with
    nSizeWithAncestors := e.nSizeWithAncestors + modifySize
    nModFeesWithAncestors := e.nModFeesWithAncestors + modifyFee
    nCountWithAncestors := e.nCountWithAncestors + modifyCount
    -- the parameter is an `int`
    nSigOpCostWithAncestors := e.nSigOpCostWithAncestors + toI32 modifySigOps }

end CTxMemPoolEntry

structure TxLinks where
  parents : Finset UInt256 := ∅
  children : Finset UInt256 := ∅
  deriving DecidableEq

/-- The limits of `CalculateMemPoolAncestors`; none is the greatest 64-bit number, which nothing
exceeds. -/
structure PackageLimits where
  ancestorCount : Option Nat := none
  ancestorSize : Option Nat := none
  descendantCount : Option Nat := none
  descendantSize : Option Nat := none
  deriving DecidableEq, Repr

def nNoLimit : PackageLimits := {}

/-- The limit in an error text. -/
def limitText (limit : Option Nat) : String := toString (limit.getD (2 ^ 64 - 1))

def exceeds (n : Int) : Option Nat → Bool
  | none => false
  | some limit => decide ((limit : Int) < n)

/-- The pool.  `mapDeltas` keeps the fee of the two deltas. -/
structure CTxMemPool where
  mapTx : Map UInt256 CTxMemPoolEntry := ∅
  mapLinks : Map UInt256 TxLinks := ∅
  mapNextTx : Map (UInt256 × Nat) CTransaction := ∅
  mapDeltas : Map UInt256 Int := ∅
  mapProposal : Map UInt256 CProposal := ∅
  mapPaymentRequest : Map UInt256 CPaymentRequest := ∅
  mapConsultation : Map UInt256 CConsultation := ∅
  mapAnswer : Map UInt256 CConsultationAnswer := ∅

def COutPoint.key (o : COutPoint) : UInt256 × Nat := (o.hash, o.n)

namespace CTxMemPool

/-- `exists`. -/
def has (pool : CTxMemPool) (hash : UInt256) : Bool := pool.mapTx.contains hash

/-- A number of the entry that an iterator stands at. -/
def valueAt (pool : CTxMemPool) (it : UInt256) (f : CTxMemPoolEntry → Int) : Int :=
  (pool.mapTx[it]?).elim 0 f

def modify (pool : CTxMemPool) (it : UInt256) (f : CTxMemPoolEntry → CTxMemPoolEntry) :
    CTxMemPool :=
  { pool with mapTx := pool.mapTx.modify it f }

/-- The same change at every entry of a set. -/
def modifyEach (pool : CTxMemPool) (its : Finset UInt256)
    (f : CTxMemPoolEntry → CTxMemPoolEntry) : CTxMemPool :=
  (inOrder its).foldl (fun pool it => pool.modify it f) pool

/-! ## Links -/

def getMemPoolParents (pool : CTxMemPool) (it : UInt256) : Finset UInt256 :=
  (pool.mapLinks[it]?).elim ∅ TxLinks.parents

def getMemPoolChildren (pool : CTxMemPool) (it : UInt256) : Finset UInt256 :=
  (pool.mapLinks[it]?).elim ∅ TxLinks.children

def updateChild (pool : CTxMemPool) (it child : UInt256) (add : Bool) : CTxMemPool :=
  { pool with mapLinks := pool.mapLinks.upsert it {} fun links =>
      { links with
        children := if add then insert child links.children else links.children.erase child } }

def updateParent (pool : CTxMemPool) (it parent : UInt256) (add : Bool) : CTxMemPool :=
  { pool with mapLinks := pool.mapLinks.upsert it {} fun links =>
      { links with
        parents := if add then insert parent links.parents else links.parents.erase parent } }

/-! ## Ancestors and descendants -/

/-- The parents that are looked up in `mapTx`. -/
def searchParents (pool : CTxMemPool) (limits : PackageLimits) :
    List CTxIn → Finset UInt256 → Except String (Finset UInt256)
  | [], parentHashes => .ok parentHashes
  | txin :: rest, parentHashes =>
    if pool.has txin.prevout.hash then
      let parentHashes := insert txin.prevout.hash parentHashes
      if exceeds (parentHashes.card + 1) limits.ancestorCount then
        .error ("too many unconfirmed parents [limit: " ++ limitText limits.ancestorCount ++ "]")
      else pool.searchParents limits rest parentHashes
    else pool.searchParents limits rest parentHashes

/-- The parents of a staged entry are staged in turn. -/
def stageParents (limits : PackageLimits) :
    List UInt256 → Finset UInt256 × Finset UInt256 → Except String (Finset UInt256 × Finset UInt256)
  | [], st => .ok st
  | phash :: rest, st =>
    let st := visit (fun _ => none) st phash
    if exceeds (st.1.card + st.2.card + 1) limits.ancestorCount then
      .error ("too many unconfirmed ancestors [limit: " ++ limitText limits.ancestorCount ++ "]")
    else stageParents limits rest st

/-- The loop of `CalculateMemPoolAncestors`. -/
def ancestorsLoop (pool : CTxMemPool) (entry : CTxMemPoolEntry) (limits : PackageLimits) :
    Nat → Int → Finset UInt256 → Finset UInt256 → Except String (Finset UInt256)
  | 0, _, _, setAncestors => .ok setAncestors
  | fuel + 1, totalSizeWithAncestors, parentHashes, setAncestors =>
    if h : parentHashes.Nonempty then
      let stageit := parentHashes.min' h
      let totalSizeWithAncestors := totalSizeWithAncestors + pool.valueAt stageit (·.nTxSize)
      if exceeds (pool.valueAt stageit (·.nSizeWithDescendants) + entry.nTxSize)
          limits.descendantSize then
        .error ("exceeds descendant size limit for tx " ++ stageit.getHex ++ " [limit: " ++
          limitText limits.descendantSize ++ "]")
      else if exceeds (pool.valueAt stageit (·.nCountWithDescendants) + 1)
          limits.descendantCount then
        .error ("too many descendants for tx " ++ stageit.getHex ++ " [limit: " ++
          limitText limits.descendantCount ++ "]")
      else if exceeds totalSizeWithAncestors limits.ancestorSize then
        .error ("exceeds ancestor size limit [limit: " ++ limitText limits.ancestorSize ++ "]")
      else
        match stageParents limits (inOrder (pool.getMemPoolParents stageit))
            (parentHashes.erase stageit, insert stageit setAncestors) with
        | .error errString => .error errString
        | .ok st => pool.ancestorsLoop entry limits fuel totalSizeWithAncestors st.1 st.2
    else .ok setAncestors

def calculateMemPoolAncestors (pool : CTxMemPool) (entry : CTxMemPoolEntry)
    (limits : PackageLimits) (fSearchForParents : Bool) : Except String (Finset UInt256) :=
  let parentHashes := if fSearchForParents then pool.searchParents limits entry.tx.vin ∅
    else .ok (pool.getMemPoolParents entry.tx.hash)
  match parentHashes with
  | .error errString => .error errString
  | .ok parentHashes =>
    pool.ancestorsLoop entry limits pool.mapTx.size entry.nTxSize parentHashes ∅

/-- The ancestors without limits, which are always found. -/
def ancestorsOf (pool : CTxMemPool) (entry : CTxMemPoolEntry) (fSearchForParents : Bool) :
    Finset UInt256 :=
  match pool.calculateMemPoolAncestors entry nNoLimit fSearchForParents with
  | .ok setAncestors => setAncestors
  | .error _ => ∅

def calculateDescendants (pool : CTxMemPool) (entryit : UInt256) (setDescendants : Finset UInt256) :
    Finset UInt256 :=
  let stage := if entryit ∈ setDescendants then ∅ else {entryit}
  walk pool.getMemPoolChildren (fun _ => none) pool.mapTx.size stage setDescendants

/-- The descendants of every entry of a set, one after the other. -/
def calculateAllDescendants (pool : CTxMemPool) (its : Finset UInt256) : Finset UInt256 :=
  (inOrder its).foldl (fun setDescendants it => pool.calculateDescendants it setDescendants) ∅

/-! ## Adding -/

def updateAncestorsOf (pool : CTxMemPool) (add : Bool) (it : UInt256)
    (setAncestors : Finset UInt256) : CTxMemPool :=
  let pool := (inOrder (pool.getMemPoolParents it)).foldl
    (fun pool piter => pool.updateChild piter it add) pool
  let updateCount : Int := if add then 1 else -1
  let updateSize := updateCount * pool.valueAt it (·.nTxSize)
  let updateFee := updateCount * pool.valueAt it (·.getModifiedFee)
  pool.modifyEach setAncestors (·.updateDescendantState updateSize updateFee updateCount)

def updateEntryForAncestors (pool : CTxMemPool) (it : UInt256) (setAncestors : Finset UInt256) :
    CTxMemPool :=
  let updateCount : Int := setAncestors.card
  let updateSize := ∑ a ∈ setAncestors, pool.valueAt a (·.nTxSize)
  let updateFee := ∑ a ∈ setAncestors, pool.valueAt a (·.getModifiedFee)
  let updateSigOpsCost := ∑ a ∈ setAncestors, pool.valueAt a (·.sigOpCost)
  pool.modify it (·.updateAncestorState updateSize updateFee updateCount updateSigOpsCost)

/-- The first part of `addUnchecked`: the entry with any fee delta, and what it spends. -/
def enterEntry (pool : CTxMemPool) (entry : CTxMemPoolEntry) : CTxMemPool :=
  let hash := entry.tx.hash
  let pool := { pool with
    mapTx := pool.mapTx.insertIfNew hash entry
    mapLinks := pool.mapLinks.insertIfNew hash {} }
  let nFeeDelta := (pool.mapDeltas[hash]?).getD 0
  let pool := if nFeeDelta = 0 then pool else pool.modify hash (·.updateFeeDelta nFeeDelta)
  { pool with
    mapNextTx := entry.tx.vin.foldl
      (fun mapNextTx (txin : CTxIn) => mapNextTx.insertIfNew txin.prevout.key entry.tx)
      pool.mapNextTx }

/-- The links to the parents that are in the pool. -/
def linkParents (pool : CTxMemPool) (tx : CTransaction) : CTxMemPool :=
  let setParentTransactions := (tx.vin.map (·.prevout.hash)).toFinset
  (inOrder setParentTransactions).foldl
    (fun pool phash => if pool.has phash then pool.updateParent tx.hash phash true else pool) pool

/-- `addUnchecked` with the ancestors given. -/
def addUnchecked (pool : CTxMemPool) (entry : CTxMemPoolEntry) (setAncestors : Finset UInt256) :
    CTxMemPool :=
  let pool := (pool.enterEntry entry).linkParents entry.tx
  (pool.updateAncestorsOf true entry.tx.hash setAncestors).updateEntryForAncestors entry.tx.hash
    setAncestors

/-- `addUnchecked` that calculates the ancestors. -/
def add (pool : CTxMemPool) (entry : CTxMemPoolEntry) : CTxMemPool :=
  pool.addUnchecked entry (pool.ancestorsOf entry true)

/-! ## Removing -/

/-- The first loop of `UpdateForRemoveFromMempool`. -/
def updateDescendantsForRemoval (pool : CTxMemPool) (entriesToRemove : Finset UInt256) :
    CTxMemPool :=
  (inOrder entriesToRemove).foldl (fun pool removeIt =>
    let setDescendants := (pool.calculateDescendants removeIt ∅).erase removeIt
    pool.modifyEach setDescendants (·.updateAncestorState (-pool.valueAt removeIt (·.nTxSize))
      (-pool.valueAt removeIt (·.getModifiedFee)) (-1) (-pool.valueAt removeIt (·.sigOpCost)))) pool

/-- The second loop, with the parents as the links have them. -/
def updateAncestorsForRemoval (pool : CTxMemPool) (entriesToRemove : Finset UInt256) :
    CTxMemPool :=
  (inOrder entriesToRemove).foldl (fun pool removeIt =>
    match pool.mapTx[removeIt]? with
    | some entry => pool.updateAncestorsOf false removeIt (pool.ancestorsOf entry false)
    | none => pool) pool

def updateChildrenForRemoval (pool : CTxMemPool) (it : UInt256) : CTxMemPool :=
  (inOrder (pool.getMemPoolChildren it)).foldl
    (fun pool updateIt => pool.updateParent updateIt it false) pool

def updateForRemoveFromMempool (pool : CTxMemPool) (entriesToRemove : Finset UInt256)
    (updateDescendants : Bool) : CTxMemPool :=
  let pool := if updateDescendants then pool.updateDescendantsForRemoval entriesToRemove else pool
  let pool := pool.updateAncestorsForRemoval entriesToRemove
  (inOrder entriesToRemove).foldl updateChildrenForRemoval pool

def removeUnchecked (pool : CTxMemPool) (it : UInt256) : CTxMemPool :=
  match pool.mapTx[it]? with
  | none => pool
  | some entry =>
    { pool with
      mapNextTx := entry.tx.vin.foldl (fun mapNextTx txin => mapNextTx.erase txin.prevout.key)
        pool.mapNextTx
      mapLinks := pool.mapLinks.erase it
      mapTx := pool.mapTx.erase it }

def removeStaged (pool : CTxMemPool) (stage : Finset UInt256) (updateDescendants : Bool) :
    CTxMemPool :=
  (inOrder stage).foldl removeUnchecked (pool.updateForRemoveFromMempool stage updateDescendants)

/-- What `removeRecursive` starts from: the transaction, or those that spend its outputs. -/
def removalRoots (pool : CTxMemPool) (origTx : CTransaction) : Finset UInt256 :=
  if pool.has origTx.hash then {origTx.hash}
  else ((List.range origTx.vout.length).filterMap fun i =>
    (pool.mapNextTx[(origTx.hash, i)]?).map (·.hash)).toFinset

def removeRecursive (pool : CTxMemPool) (origTx : CTransaction) : CTxMemPool :=
  pool.removeStaged (pool.calculateAllDescendants (pool.removalRoots origTx)) false

def clearPrioritisation (pool : CTxMemPool) (hash : UInt256) : CTxMemPool :=
  { pool with mapDeltas := pool.mapDeltas.erase hash }

def removeConflicts (pool : CTxMemPool) (tx : CTransaction) : CTxMemPool :=
  tx.vin.foldl (fun pool txin =>
    match pool.mapNextTx[txin.prevout.key]? with
    | none => pool
    | some txConflict =>
      if txConflict.hash ≠ tx.hash then
        (pool.removeRecursive txConflict).clearPrioritisation txConflict.hash
      else pool) pool

/-- One transaction of the block in `removeForBlock`. -/
def removeForBlockTx (pool : CTxMemPool) (tx : CTransaction) : CTxMemPool :=
  let pool := if pool.has tx.hash then pool.removeStaged {tx.hash} true else pool
  let pool := (pool.removeConflicts tx).clearPrioritisation tx.hash
  { pool with
    mapProposal := pool.mapProposal.erase tx.hash
    mapPaymentRequest := pool.mapPaymentRequest.erase tx.hash }

def removeForBlock (pool : CTxMemPool) (vtx : List CTransaction) : CTxMemPool :=
  vtx.foldl removeForBlockTx pool

def expire (pool : CTxMemPool) (time : Int) : CTxMemPool :=
  let toremove := (pool.mapTx.toList.filterMap fun it =>
    if it.2.nTime < time then some it.1 else none).toFinset
  pool.removeStaged (pool.calculateAllDescendants toremove) false

end CTxMemPool

/-- What the eviction depends on beside the entries: the memory in use and the order by descendant
score, which compares in `double`. -/
structure Eviction where
  dynamicMemoryUsage : CTxMemPool → Nat
  lowestDescendantScore : CTxMemPool → UInt256

namespace CTxMemPool

/-- The loop of `TrimToSize`; every turn removes an entry. -/
def trimLoop (pool : CTxMemPool) (eviction : Eviction) (sizelimit : Nat) : Nat → CTxMemPool
  | 0 => pool
  | fuel + 1 =>
    if !pool.mapTx.isEmpty && decide (sizelimit < eviction.dynamicMemoryUsage pool) then
      let stage := pool.calculateDescendants (eviction.lowestDescendantScore pool) ∅
      (pool.removeStaged stage false).trimLoop eviction sizelimit fuel
    else pool

def trimToSize (pool : CTxMemPool) (eviction : Eviction) (sizelimit : Nat) : CTxMemPool :=
  pool.trimLoop eviction sizelimit pool.mapTx.size

/-- `LimitMempoolSize`, with the time up to which entries are too old. -/
def limitMempoolSize (pool : CTxMemPool) (eviction : Eviction) (limit : Nat) (time : Int) :
    CTxMemPool :=
  (pool.expire time).trimToSize eviction limit

/-! ## After a reorganisation -/

/-- The entries that spend an output of the transaction, in the order of the outputs. -/
def spenders (pool : CTxMemPool) (hash : UInt256) : List UInt256 :=
  (pool.mapNextTx.toList.filter fun it => it.1.1 == hash).map (·.2.hash)

/-- The links to the children that are not accounted for yet. -/
def linkChildren (pool : CTxMemPool) (hash : UInt256) (setAlreadyIncluded : Finset UInt256) :
    CTxMemPool :=
  ((pool.spenders hash).foldl (fun (st : CTxMemPool × Finset UInt256) childHash =>
    if childHash ∈ st.2 then st
    else if childHash ∈ setAlreadyIncluded then (st.1, insert childHash st.2)
    else ((st.1.updateChild hash childHash true).updateParent childHash hash true,
      insert childHash st.2)) (pool, ∅)).1

/-- `UpdateForDescendants`, with the cache of descendants. -/
def updateForDescendants (pool : CTxMemPool) (cachedDescendants : Map UInt256 (Finset UInt256))
    (updateIt : UInt256) (setExclude : Finset UInt256) :
    CTxMemPool × Map UInt256 (Finset UInt256) :=
  let setAllDescendants := walk pool.getMemPoolChildren (fun it => cachedDescendants[it]?)
    pool.mapTx.size (pool.getMemPoolChildren updateIt) ∅
  let updated := setAllDescendants \ setExclude
  let modifySize := ∑ d ∈ updated, pool.valueAt d (·.nTxSize)
  let modifyFee := ∑ d ∈ updated, pool.valueAt d (·.getModifiedFee)
  let modifyCount : Int := updated.card
  let cachedDescendants := if updated = ∅ then cachedDescendants
    else cachedDescendants.upsert updateIt ∅ fun ds => ds ∪ updated
  let pool' := pool.modifyEach updated (·.updateAncestorState (pool.valueAt updateIt (·.nTxSize))
    (pool.valueAt updateIt (·.getModifiedFee)) 1 (pool.valueAt updateIt (·.sigOpCost)))
  (pool'.modify updateIt (·.updateDescendantState modifySize modifyFee modifyCount),
    cachedDescendants)

/-- One transaction of `UpdateTransactionsFromBlock`. -/
def updateTransactionFromBlock (setAlreadyIncluded : Finset UInt256)
    (st : CTxMemPool × Map UInt256 (Finset UInt256)) (hash : UInt256) :
    CTxMemPool × Map UInt256 (Finset UInt256) :=
  if st.1.has hash then
    (st.1.linkChildren hash setAlreadyIncluded).updateForDescendants st.2 hash setAlreadyIncluded
  else st

def updateTransactionsFromBlock (pool : CTxMemPool) (vHashesToUpdate : List UInt256) :
    CTxMemPool :=
  (vHashesToUpdate.reverse.foldl (updateTransactionFromBlock vHashesToUpdate.toFinset)
    (pool, ∅)).1

/-! ## Priorities -/

def prioritiseTransaction (pool : CTxMemPool) (hash : UInt256) (nFeeDelta : Int) : CTxMemPool :=
  let delta := (pool.mapDeltas[hash]?).getD 0 + nFeeDelta
  let pool := { pool with mapDeltas := pool.mapDeltas.insert hash delta }
  let pool := pool.modify hash (·.updateFeeDelta delta)
  match pool.mapTx[hash]? with
  | none => pool
  | some entry =>
    pool.modifyEach (pool.ancestorsOf entry false) (·.updateDescendantState 0 nFeeDelta 0)

end CTxMemPool

end Electrum
