import Electrum.Index.Filing
import Electrum.Validation.DisconnectFrame

/-!
# The records of the address and spent indexes

While a block is connected or disconnected, the records of four indexes are collected: what an
address received and spent, what it has unspent, its history, and by which input an output was
spent.  They are written at the end.  When a block is disconnected no list of its records is at
hand, so their keys are derived again from its transactions and the restored outputs.

Main results:
* `connectRecords_eq`, `disconnectRecords_eq` — both are told by the transactions and the undo data
* `connectRecords_connected`, `disconnectRecords_connected` — the records of a block that is accepted
-/

namespace Electrum

open List Option

/-! ## Keys and values -/

/-- `type`, `hashBytes`, `blockHeight`, `txindex`, `txhash`, `index`, `spending`. -/
abbrev CAddressIndexKey := Nat × UInt160 × Nat × Nat × UInt256 × Nat × Bool

-- the search stops before it has gone through all the parts
instance : DecidableEq CAddressIndexKey := instDecidableEqProd

/-- `type`, `hashBytes`, `txhash`, `index`. -/
abbrev CAddressUnspentKey := Nat × UInt160 × UInt256 × Nat

instance unspentKeyOrd : Std.TransOrd CAddressUnspentKey := inferInstance

structure CAddressUnspentValue where
  satoshis : Int
  script : CScript
  blockHeight : Nat
  deriving DecidableEq, Repr

namespace CAddressUnspentValue

/-- `CAddressUnspentValue()`. -/
def null : CAddressUnspentValue := ⟨-1, [], 0⟩

def isNull (v : CAddressUnspentValue) : Bool := v.satoshis == -1

end CAddressUnspentValue

/-- `hashBytes`, `hashBytes2`, `blockHeight`, `txhash`, `time`: what the order of the keys looks
at. -/
abbrev HistoryOrder := UInt160 × UInt160 × Nat × UInt256 × Nat

/-- A key as it is stored, with `txindex` at its end. -/
abbrev CAddressHistoryKey := HistoryOrder × Nat

structure CAddressHistoryValue where
  spendable : Int
  stakable : Int
  voting_weight : Int
  flags : Bool
  deriving DecidableEq, Repr

/-- `txid`, `outputIndex`. -/
abbrev CSpentIndexKey := UInt256 × Nat

structure CSpentIndexValue where
  txid : UInt256
  inputIndex : Nat
  blockHeight : Nat
  satoshis : Int
  addressType : Nat
  addressHash : UInt160
  deriving DecidableEq, Repr

namespace CSpentIndexValue

/-- `CSpentIndexValue()`. -/
def null : CSpentIndexValue := ⟨0, 0, 0, 0, 0, .null⟩

def isNull (v : CSpentIndexValue) : Bool := v.txid == 0

end CSpentIndexValue

/-! ## Collected records -/

/-- An addition to an entry of the address history. -/
structure HistoryTouch where
  key : HistoryOrder
  txindex : Nat
  /-- the flags of the entry, if this makes it -/
  flags : Bool
  spendable : Int
  stakable : Int
  voting_weight : Int
  deriving DecidableEq, Repr

/-- The records in the order in which they are collected. -/
structure IndexRecords where
  addressIndex : List (CAddressIndexKey × Int)
  addressUnspentIndex : List (CAddressUnspentKey × CAddressUnspentValue)
  addressHistory : List HistoryTouch
  spentIndex : List (CSpentIndexKey × CSpentIndexValue)

namespace IndexRecords

def empty : IndexRecords := ⟨[], [], [], []⟩

/-- Records one after the other. -/
def join (l : List IndexRecords) : IndexRecords :=
  ⟨l.flatMap (·.addressIndex), l.flatMap (·.addressUnspentIndex), l.flatMap (·.addressHistory),
    l.flatMap (·.spentIndex)⟩

end IndexRecords

/-- `addressHistoryMap`: an entry is made by the first addition, and keeps its `txindex`. -/
def historyMap (touches : List HistoryTouch) : Map HistoryOrder (Nat × CAddressHistoryValue) :=
  touches.foldl (fun m t => Map.upsert m t.key (t.txindex, ⟨0, 0, 0, t.flags⟩) fun e =>
    (e.1, { e.2 with
      spendable := e.2.spendable + t.spendable
      stakable := e.2.stakable + t.stakable
      voting_weight := e.2.voting_weight + t.voting_weight })) ∅

/-- The place of a transaction in the chain. -/
structure TxPlace where
  nHeight : Nat
  i : Nat
  tx : CTransaction

namespace TxPlace

variable (p : TxPlace)

/-- The additions to the history for an output of a value. -/
def touches (items : List HistoryItem) (flags : Bool) (nValue : Int) : List HistoryTouch :=
  items.map fun item =>
    ⟨(item.hashBytes, item.hashBytes2, p.nHeight, p.tx.hash, p.tx.nTime), p.i, flags,
      if item.spendable then nValue else 0, if item.stakable then nValue else 0,
      if item.votingWeight then nValue else 0⟩

def addressKey (address : Nat × UInt160) (index : Nat) (spending : Bool) : CAddressIndexKey :=
  (address.1, address.2, p.nHeight, p.i, p.tx.hash, index, spending)

def generated : Bool := p.tx.isCoinBase || p.tx.isCoinStake

end TxPlace

def unspentKey (address : Nat × UInt160) (prevout : COutPoint) : CAddressUnspentKey :=
  (address.1, address.2, prevout.hash, prevout.n)

namespace Indexing

variable (x : Indexing)

/-- `ConnectBlock`, for the input `j` that spends an output. -/
def inputRecords (p : TxPlace) (j : Nat) (prevout : COutPoint) (out : CTxOut) : IndexRecords :=
  let filing := x.connectInput prevout out.scriptPubKey
  let fFiled := x.fAddressIndex && decide (0 < filing.address.1)
  { addressIndex := if fFiled then [(p.addressKey filing.address j true, -out.nValue)] else []
    addressUnspentIndex :=
      if fFiled then [(unspentKey filing.unspent prevout, .null)] else []
    addressHistory := p.touches filing.items p.generated (-out.nValue)
    spentIndex := if x.fSpentIndex then
        [((prevout.hash, prevout.n),
          ⟨p.tx.hash, j, p.nHeight, out.nValue, filing.address.1, filing.address.2⟩)]
      else [] }

/-- `ConnectBlock`, for the output `k`. -/
def outputRecords (p : TxPlace) (k : Nat) (out : CTxOut) : IndexRecords :=
  match x.connectOutput out.scriptPubKey with
  | none => .empty
  | some filing =>
    { addressIndex := [(p.addressKey filing.address k false, out.nValue)]
      addressUnspentIndex := [(unspentKey filing.unspent ⟨p.tx.hash, k⟩,
        ⟨out.nValue, out.scriptPubKey, p.nHeight⟩)]
      -- the entry of a script hash is made without flags
      addressHistory := p.touches filing.items
        (p.generated && !out.scriptPubKey.isPayToScriptHash) out.nValue
      spentIndex := [] }

/-- The records of a transaction, given the outputs that it spends. -/
def txRecords (p : TxPlace) (spent : List CTxOut) : List IndexRecords :=
  (if x.fAddressIndex || x.fSpentIndex then
      (p.tx.vin.zip spent).zipIdx.map fun it => x.inputRecords p it.2 it.1.1.prevout it.1.2
    else []) ++
  (if x.fAddressIndex then p.tx.vout.zipIdx.map fun it => x.outputRecords p it.2 it.1 else [])

/-- The outputs that a transaction spends, from the view. -/
def spentOutputs (view : CStateView) (tx : CTransaction) : List CTxOut :=
  if tx.isCoinBase then []
  else tx.vin.map fun txin => (view.outputFor txin.prevout).getD ⟨-1, []⟩

/-- The records that `ConnectBlock` collects. -/
def connectRecords (nHeight : Nat) : List (CTransaction × Nat) → CStateView → List IndexRecords
  | [], _ => []
  | (tx, i) :: rest, view =>
    x.txRecords ⟨nHeight, i, tx⟩ (spentOutputs view tx) ++
      match updateCoins view tx nHeight with
      | none => []
      | some r => connectRecords nHeight rest r.1

/-- `DisconnectBlock`, for the output `k`. -/
def undoOutputRecords (p : TxPlace) (k : Nat) (out : CTxOut) : IndexRecords :=
  match x.undoFiling out.scriptPubKey with
  | none => .empty
  | some filing =>
    { addressIndex := [(p.addressKey filing.address k false, out.nValue)]
      addressUnspentIndex := [(unspentKey filing.unspent ⟨p.tx.hash, k⟩, .null)]
      addressHistory := p.touches filing.items false 0
      spentIndex := [] }

/-- `DisconnectBlock`, for the input `j` whose output was restored. -/
def undoInputRecords (p : TxPlace) (j : Nat) (prevout : COutPoint) (out : CTxOut)
    (undoHeight : Nat) : IndexRecords :=
  let spentIndex := if x.fSpentIndex then [((prevout.hash, prevout.n), CSpentIndexValue.null)] else []
  match if x.fAddressIndex then x.undoFiling out.scriptPubKey else none with
  | none => { IndexRecords.empty with spentIndex }
  | some filing =>
    { addressIndex := [(p.addressKey filing.address j true, -out.nValue)]
      addressUnspentIndex := [(unspentKey filing.unspent prevout,
        ⟨out.nValue, out.scriptPubKey, undoHeight⟩)]
      addressHistory := p.touches filing.items false 0
      spentIndex }

/-- The clean flag, the view, and the records so far. -/
abbrev Disconnecting := (Bool × CStateView) × List IndexRecords

/-- One input of a transaction: `ApplyTxInUndo`, and the records of the restored output. -/
def restoreInput (p : TxPlace) (it : (CTxIn × CTxInUndo) × Nat) (st : Disconnecting) :
    Disconnecting :=
  let r := applyTxInUndo it.1.2 st.1.2 it.1.1.prevout
  ((st.1.1 && r.1, r.2), st.2 ++ [x.undoInputRecords p it.2 it.1.1.prevout
    ((r.2.outputFor it.1.1.prevout).getD ⟨-1, []⟩) it.1.2.nHeight])

/-- One transaction of `DisconnectBlock`, with its records. -/
def disconnectTxRecords (nHeight : Nat) (it : (CTransaction × Option (List CTxInUndo)) × Nat)
    (st : Disconnecting) : Option Disconnecting :=
  let p : TxPlace := ⟨nHeight, it.2, it.1.1⟩
  let records := if x.fAddressIndex then
      p.tx.vout.zipIdx.reverse.map fun out => x.undoOutputRecords p out.2 out.1
    else []
  let r := removeOutputs nHeight p.tx st.1.2
  let st : Disconnecting := ((st.1.1 && r.1, r.2), st.2 ++ records)
  match it.1.2 with
  | none => some st
  | some vprevout =>
    if vprevout.length ≠ p.tx.vin.length then none
    else some ((p.tx.vin.zip vprevout).zipIdx.foldr (x.restoreInput p) st)

/-- The records that `DisconnectBlock` collects. -/
def disconnectRecords (nHeight : Nat) (vtx : List CTransaction) (vtxundo : List (List CTxInUndo))
    (view : CStateView) : Option Disconnecting :=
  if vtxundo.length + 1 ≠ vtx.length then none
  else (vtx.zip (none :: vtxundo.map some)).zipIdx.foldrM (x.disconnectTxRecords nHeight)
    ((true, view), [])

end Indexing

/-! ## The databases -/

structure IndexDB where
  addressIndex : Map CAddressIndexKey Int
  addressUnspentIndex : Map CAddressUnspentKey CAddressUnspentValue
  addressHistory : Map CAddressHistoryKey CAddressHistoryValue
  spentIndex : Map CSpentIndexKey CSpentIndexValue

namespace IndexDB

def empty : IndexDB := ⟨∅, ∅, ∅, ∅⟩

/-- `UpdateAddressUnspentIndex`: a null value erases. -/
def updateUnspent (db : Map CAddressUnspentKey CAddressUnspentValue)
    (l : List (CAddressUnspentKey × CAddressUnspentValue)) :
    Map CAddressUnspentKey CAddressUnspentValue :=
  l.foldl (fun m it => Map.setUnless CAddressUnspentValue.isNull m it.1 it.2) db

/-- `UpdateSpentIndex`. -/
def updateSpent (db : Map CSpentIndexKey CSpentIndexValue)
    (l : List (CSpentIndexKey × CSpentIndexValue)) : Map CSpentIndexKey CSpentIndexValue :=
  l.foldl (fun m it => Map.setUnless CSpentIndexValue.isNull m it.1 it.2) db

/-- The stored entries of the history. -/
def historyEntries (touches : List HistoryTouch) :
    List (CAddressHistoryKey × CAddressHistoryValue) :=
  (historyMap touches).toList.map fun it => ((it.1, it.2.1), it.2.2)

/-- The end of `ConnectBlock`. -/
def write (x : Indexing) (r : IndexRecords) (db : IndexDB) : IndexDB :=
  if x.fAddressIndex then
    { addressIndex := r.addressIndex.foldl (fun m it => m.insert it.1 it.2) db.addressIndex
      addressHistory :=
        (historyEntries r.addressHistory).foldl (fun m it => m.insert it.1 it.2) db.addressHistory
      addressUnspentIndex := updateUnspent db.addressUnspentIndex r.addressUnspentIndex
      spentIndex := if x.fSpentIndex then updateSpent db.spentIndex r.spentIndex else db.spentIndex }
  else { db with
    spentIndex := if x.fSpentIndex then updateSpent db.spentIndex r.spentIndex else db.spentIndex }

/-- The end of `DisconnectBlock`.  The records of the spent index are collected and not used. -/
def erase (x : Indexing) (r : IndexRecords) (db : IndexDB) : IndexDB :=
  if x.fAddressIndex then
    { db with
      addressIndex := (r.addressIndex.map (·.1)).foldl (fun m k => m.erase k) db.addressIndex
      addressHistory := ((historyEntries r.addressHistory).map (·.1)).foldl (fun m k => m.erase k)
        db.addressHistory
      addressUnspentIndex := updateUnspent db.addressUnspentIndex r.addressUnspentIndex }
  else db

end IndexDB

/-! ## The records in terms of the undo data -/

/-- **The undo data holds the spent outputs.** -/
theorem updateCoins_spentOutputs {view view' : CStateView} {tx : CTransaction} {nHeight : Nat}
    {undo : List CTxInUndo} (h : updateCoins view tx nHeight = some (view', undo)) :
    undo.map (·.txout) = Indexing.spentOutputs view tx := by
  unfold updateCoins at h
  rw [map_eq_some_iff] at h
  obtain ⟨st, hSt, hEq⟩ := h
  cases hEq
  unfold Indexing.spentOutputs
  cases hCb : tx.isCoinBase with
  | true =>
    rw [hCb] at hSt
    cases hSt
    rfl
  | false =>
    rw [hCb] at hSt
    -- an input that is visited finds its output as it was before the transaction
    refine (foldlM_option_invariant (fun done (s : CStateView × List CTxInUndo) =>
      s.2.map (·.txout) = done.map (fun txin => (view.outputFor txin.prevout).getD ⟨-1, []⟩) ∧
      ∀ prevout, s.1.outputFor prevout = none ∨ s.1.outputFor prevout = view.outputFor prevout)
      tx.vin (b := (view, [])) ⟨rfl, fun _ => Or.inr rfl⟩ ?_ hSt).1
    rintro done txin rest s s' - ⟨hList, hOut⟩ hStep
    obtain ⟨out, u, hHas, hTxout, hUndo, hFrame⟩ := spendInput_some hStep
    constructor
    · have hSame : view.outputFor txin.prevout = some out :=
        ((hOut txin.prevout).resolve_left (by rw [hHas]; exact some_ne_none out)).symm.trans
          hHas
      rw [hUndo, map_append, map_append, hList, map_singleton, map_singleton, hTxout, hSame]
      rfl
    · intro prevout
      by_cases hEq : prevout = txin.prevout
      · exact Or.inl ((spendInput_outputFor hStep prevout).trans (if_pos hEq))
      · rw [hFrame prevout hEq]
        exact hOut prevout

namespace Indexing

variable (x : Indexing)

/-- A transaction of a block with its undo data and its position. -/
abbrev BlockItem := (CTransaction × Option (List CTxInUndo)) × Nat

def place (nHeight : Nat) (it : BlockItem) : TxPlace := ⟨nHeight, it.2, it.1.1⟩

/-- The transactions of a block; the coinbase has no undo data. -/
def blockItems (vtx : List CTransaction) (vtxundo : List (List CTxInUndo)) : List BlockItem :=
  (vtx.zip (none :: vtxundo.map some)).zipIdx

/-- The outputs that undo data holds. -/
def spentOf (undo : Option (List CTxInUndo)) : List CTxOut := (undo.getD []).map (·.txout)

variable {nHeight : Nat} {vtx : List CTransaction} {view view' : CStateView}

theorem connectRecords_connectCoins {undos : List (List CTxInUndo)}
    (h : connectCoins nHeight vtx view = some (view', undos)) (k : Nat) :
    x.connectRecords nHeight (vtx.zipIdx k) view =
      ((vtx.zip (undos.map some)).zipIdx k).flatMap fun it =>
        x.txRecords (place nHeight it) (spentOf it.1.2) := by
  induction vtx generalizing view undos k with
  | nil => rfl
  | cons tx rest ih =>
    rw [connectCoins, bind_eq_some_iff] at h
    obtain ⟨⟨view1, undo⟩, hTx, h⟩ := h
    rw [map_eq_some_iff] at h
    obtain ⟨⟨view2, undos'⟩, hRest, hEq⟩ := h
    cases hEq
    rw [zipIdx_cons, connectRecords, hTx, ← updateCoins_spentOutputs hTx]
    exact congrArg _ (ih hRest (k + 1))

/-- **A restored output** is the one of the undo data. -/
theorem outputFor_applyTxInUndo (undo : CTxInUndo) (view : CStateView) (prevout : COutPoint) :
    (applyTxInUndo undo view prevout).2.outputFor prevout = some undo.txout := by
  rw [applyTxInUndo, outputFor_setCoins, if_pos rfl]
  exact (CCoins.available_set_resize _ _ _ _).trans (if_pos rfl)

/-- The records of a disconnected transaction, given its undo data. -/
def undoTxRecords (p : TxPlace) (undo : Option (List CTxInUndo)) : List IndexRecords :=
  (if x.fAddressIndex then
      p.tx.vout.zipIdx.reverse.map fun out => x.undoOutputRecords p out.2 out.1
    else []) ++
  (p.tx.vin.zip (undo.getD [])).zipIdx.reverse.map fun it =>
    x.undoInputRecords p it.2 it.1.1.prevout it.1.2.txout it.1.2.nHeight

theorem restoreInput_foldr (p : TxPlace) (l : List (CTxIn × CTxInUndo)) (k : Nat)
    (st : Disconnecting) :
    (l.zipIdx k).foldr (x.restoreInput p) st = (l.foldr undoInput st.1,
        st.2 ++ (l.zipIdx k).reverse.map fun it =>
          x.undoInputRecords p it.2 it.1.1.prevout it.1.2.txout it.1.2.nHeight) := by
  induction l generalizing k with
  | nil => simp
  | cons it rest ih =>
    rw [zipIdx_cons, foldr_cons, ih, reverse_cons, map_append,
      ← append_assoc, restoreInput, outputFor_applyTxInUndo]
    rfl

theorem disconnectTxRecords_eq (nHeight : Nat) (it : BlockItem) (st : Disconnecting) :
    x.disconnectTxRecords nHeight it st = (disconnectTx nHeight it.1 st.1).map fun s =>
      (s, st.2 ++ x.undoTxRecords (place nHeight it) it.1.2) := by
  obtain ⟨⟨tx, undo⟩, i⟩ := it
  cases undo with
  | none => simp [disconnectTxRecords, disconnectTx, undoTxRecords, place]
  | some vprevout =>
    by_cases hLength : vprevout.length ≠ tx.vin.length
    · simp [disconnectTxRecords, disconnectTx, hLength]
    · simp only [disconnectTxRecords, disconnectTx, undoTxRecords, place, hLength, if_false,
        restoreInput_foldr, map_some, getD_some, append_assoc]
      rfl

theorem disconnectTxRecords_foldrM (nHeight : Nat)
    (l : List (CTransaction × Option (List CTxInUndo))) (k : Nat) (view : CStateView) :
    (l.zipIdx k).foldrM (x.disconnectTxRecords nHeight) ((true, view), []) =
      (l.foldrM (disconnectTx nHeight) (true, view)).map fun s =>
        (s, (l.zipIdx k).reverse.flatMap fun it => x.undoTxRecords (place nHeight it) it.1.2) := by
  induction l generalizing k with
  | nil => rfl
  | cons it rest ih =>
    rw [zipIdx_cons, foldrM_cons, ih, foldrM_cons]
    cases rest.foldrM (disconnectTx nHeight) (true, view) with
    | none => rfl
    | some st =>
      rw [map_some, bind_eq_bind, bind_some, bind_eq_bind,
        bind_some, disconnectTxRecords_eq, reverse_cons, flatMap_append,
        flatMap_singleton]

/-- **Disconnecting.** The coins change as without indexes, and the records are those of the
transactions, the last one first. -/
theorem disconnectRecords_eq (nHeight : Nat) (vtx : List CTransaction)
    (vtxundo : List (List CTxInUndo)) (view : CStateView) :
    x.disconnectRecords nHeight vtx vtxundo view =
      (disconnectCoins nHeight vtx vtxundo view).map fun s =>
        (s, (blockItems vtx vtxundo).reverse.flatMap fun it =>
          x.undoTxRecords (place nHeight it) it.1.2) := by
  unfold disconnectRecords disconnectCoins
  split
  · rfl
  · exact x.disconnectTxRecords_foldrM nHeight _ 0 view

/-- **Connecting.** The records are those of the transactions. -/
theorem connectRecords_eq {undo : List CTxInUndo} {vtxundo : List (List CTxInUndo)}
    (h : connectCoins nHeight vtx view = some (view', undo :: vtxundo)) (hCoinbase : undo = []) :
    x.connectRecords nHeight vtx.zipIdx view = (blockItems vtx vtxundo).flatMap fun it =>
      x.txRecords (place nHeight it) (spentOf it.1.2) := by
  rw [connectRecords_connectCoins x h]
  cases vtx with
  | nil => rfl
  | cons coinbase rest =>
    subst hCoinbase
    rfl

/-! ## Blocks -/

/-- The records of a block that is connected. -/
def connected (nHeight : Nat) (items : List BlockItem) : IndexRecords :=
  .join (items.flatMap fun it => x.txRecords (place nHeight it) (spentOf it.1.2))

/-- The records of a block that is disconnected. -/
def disconnected (nHeight : Nat) (items : List BlockItem) : IndexRecords :=
  .join (items.reverse.flatMap fun it => x.undoTxRecords (place nHeight it) it.1.2)

/-- The indexes after `ConnectBlock`. -/
def connectIndexes (nHeight : Nat) (block : CBlock) (view : CStateView) (db : IndexDB) : IndexDB :=
  db.write x (.join (x.connectRecords nHeight block.vtx.zipIdx view))

/-- The indexes after `DisconnectBlock`. -/
def disconnectIndexes (nHeight : Nat) (block : CBlock) (vtxundo : List (List CTxInUndo))
    (view : CStateView) (db : IndexDB) : Option IndexDB :=
  (x.disconnectRecords nHeight block.vtx vtxundo view).map fun st => db.erase x (.join st.2)

section Connected

variable {node : Node} {block : CBlock} {pindex : CBlockIndex} {pprev : Chain} {fund : Fund}
  {recorded : RecordedVotes} {view : CStateView} {r : Connected}

/-- **The records of an accepted block**, from its undo data. -/
theorem connectRecords_connected
    (hConnect : connectBlock node block pindex pprev fund recorded view = .ok r)
    (hGenesis : block.hash ≠ node.params.genesis.hash) :
    IndexRecords.join (x.connectRecords pindex.nHeight block.vtx.zipIdx view) =
      x.connected pindex.nHeight (blockItems block.vtx r.vtxundo) := by
  obtain ⟨hCheck, hRest⟩ := connectBlock_ok hConnect
  obtain ⟨run⟩ := (hRest.resolve_left fun h => hGenesis h.1).2
  obtain ⟨coinbase, rest, hVtx, hCb, -⟩ := checkBlock_vtx hCheck
  obtain ⟨view', undos, hCoins, -, hUndo⟩ := run.connectCoins
  have hFirst := hCoins
  rw [hVtx, connectCoins, bind_eq_some_iff] at hFirst
  obtain ⟨⟨view1, undo⟩, hTx, hOthers⟩ := hFirst
  rw [map_eq_some_iff] at hOthers
  obtain ⟨⟨view2, undos'⟩, -, hEq⟩ := hOthers
  cases hEq
  -- a coinbase spends nothing
  have hNone : undo = [] := by
    have hSpent := updateCoins_spentOutputs hTx
    rw [spentOutputs, if_pos hCb] at hSpent
    exact map_eq_nil_iff.mp hSpent
  rw [hUndo, x.connectRecords_eq hCoins hNone]
  rfl

/-- **The records of an accepted block that is disconnected.** -/
theorem disconnectRecords_connected
    (hConnect : connectBlock node block pindex pprev fund recorded view = .ok r)
    (hGenesis : block.hash ≠ node.params.genesis.hash) (view' : CStateView) (db : IndexDB) :
    x.disconnectIndexes pindex.nHeight block r.vtxundo view' db =
      some (db.erase x (x.disconnected pindex.nHeight (blockItems block.vtx r.vtxundo))) := by
  obtain ⟨d, hBlock⟩ := disconnectBlock_connected hConnect hGenesis recorded view'
  obtain ⟨v, hCoins, -⟩ := disconnectBlock_coins hBlock
  rw [disconnectIndexes, disconnectRecords_eq, hCoins]
  rfl

end Connected

end Indexing

end Electrum
