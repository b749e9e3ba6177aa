import Electrum.Index.Records
import Electrum.Validation.Maturity

/-!
# Whether the records of a block are undone

Main results:
* `addressIndex_found_iff` — when the keys of the address index are found again
* `addressHistory_undone` — those of the history always are
* `spentIndex_undone_iff` — those of the spent index never are
* `indexes_undone_iff` — for which blocks exactly the records that were written are erased
-/

namespace Electrum

open List Option IndexDB

namespace Indexing

variable (x : Indexing)

/-! ## Slots -/

/-- An input or an output of a transaction in a block, with the output that it is about and the
height in the undo data. -/
structure Slot where
  place : TxPlace
  index : Nat
  spending : Bool
  prevout : COutPoint
  out : CTxOut
  undoHeight : Nat

def inputSlots (p : TxPlace) (undo : Option (List CTxInUndo)) : List Slot :=
  (p.tx.vin.zip (undo.getD [])).zipIdx.map fun it =>
    ⟨p, it.2, true, it.1.1.prevout, it.1.2.txout, it.1.2.nHeight⟩

def outputSlots (p : TxPlace) : List Slot :=
  p.tx.vout.zipIdx.map fun it => ⟨p, it.2, false, ⟨p.tx.hash, it.2⟩, it.1, 0⟩

/-- The slots of a block. -/
def slots (nHeight : Nat) (items : List BlockItem) : List Slot :=
  items.flatMap fun it => inputSlots (place nHeight it) it.1.2 ++ outputSlots (place nHeight it)

variable {nHeight : Nat} {items : List BlockItem} {s : Slot} {p : TxPlace} {vtx : List CTransaction}
  {vtxundo : List (List CTxInUndo)} {k : CAddressIndexKey}

theorem mem_slots : s ∈ slots nHeight items ↔ ∃ it ∈ items,
      s ∈ inputSlots (place nHeight it) it.1.2 ∨ s ∈ outputSlots (place nHeight it) := by
  simp only [slots, mem_flatMap, mem_append]

theorem mem_inputSlots {undo : Option (List CTxInUndo)} :
    s ∈ inputSlots p undo ↔ ∃ it ∈ (p.tx.vin.zip (undo.getD [])).zipIdx,
      s = ⟨p, it.2, true, it.1.1.prevout, it.1.2.txout, it.1.2.nHeight⟩ := by
  simp only [inputSlots, List.mem_map, eq_comm]

theorem mem_outputSlots : s ∈ outputSlots p ↔ ∃ it ∈ p.tx.vout.zipIdx,
      s = ⟨p, it.2, false, ⟨p.tx.hash, it.2⟩, it.1, 0⟩ := by
  simp only [outputSlots, List.mem_map, eq_comm]

/-- **A slot is told by its position.** -/
theorem slot_unique {s' : Slot} (h : s ∈ slots nHeight (blockItems vtx vtxundo))
    (h' : s' ∈ slots nHeight (blockItems vtx vtxundo)) (hTx : s.place.i = s'.place.i)
    (hIndex : s.index = s'.index) (hSpending : s.spending = s'.spending) : s = s' := by
  have hAt : ∀ {α : Type} {l : List α} {a b : α × Nat}, a ∈ l.zipIdx → b ∈ l.zipIdx → a.2 = b.2 →
      a = b := by
    intro α l a b ha hb hEq
    rw [mem_zipIdx_iff_getElem?] at ha hb
    rw [hEq, hb] at ha
    exact Prod.ext (some.inj ha).symm hEq
  simp only [mem_slots, mem_inputSlots, mem_outputSlots] at h h'
  obtain ⟨it, hIt, hs⟩ := h
  obtain ⟨it', hIt', hs'⟩ := h'
  have hSame : it = it' := by
    refine hAt hIt hIt' ?_
    rcases hs with ⟨e, -, rfl⟩ | ⟨e, -, rfl⟩ <;> rcases hs' with ⟨e', -, rfl⟩ | ⟨e', -, rfl⟩ <;>
      exact hTx
  subst hSame
  rcases hs with ⟨e, he, rfl⟩ | ⟨e, he, rfl⟩
  · rcases hs' with ⟨e', he', rfl⟩ | ⟨e', he', rfl⟩
    · rw [hAt he he' hIndex]
    · cases hSpending
  · rcases hs' with ⟨e', he', rfl⟩ | ⟨e', he', rfl⟩
    · cases hSpending
    · rw [hAt he he' hIndex]

/-- What connecting collects for a slot. -/
def connectSlot (s : Slot) : IndexRecords :=
  if s.spending then x.inputRecords s.place s.index s.prevout s.out
  else x.outputRecords s.place s.index s.out

/-- What disconnecting collects for a slot. -/
def undoSlot (s : Slot) : IndexRecords :=
  if s.spending then x.undoInputRecords s.place s.index s.prevout s.out s.undoHeight
  else x.undoOutputRecords s.place s.index s.out

section Keys

variable {x} {nHeight : Nat} {items : List BlockItem} (hAddress : x.fAddressIndex = true)

include hAddress

theorem txRecords_slots (p : TxPlace) (undo : Option (List CTxInUndo)) :
    x.txRecords p (spentOf undo) =
      (inputSlots p undo).map x.connectSlot ++ (outputSlots p).map x.connectSlot := by
  simp only [txRecords, hAddress, Bool.true_or, if_true, inputSlots, outputSlots, spentOf,
    List.map_map, zip_map_right, zipIdx_map]
  rfl

theorem undoTxRecords_slots (p : TxPlace) (undo : Option (List CTxInUndo)) :
    x.undoTxRecords p undo =
      (outputSlots p).reverse.map x.undoSlot ++ (inputSlots p undo).reverse.map x.undoSlot := by
  simp only [undoTxRecords, hAddress, if_true, inputSlots, outputSlots, List.map_map, ← map_reverse]
  rfl

/-- A record of a connected block belongs to a slot. -/
theorem mem_connected {α : Type} (field : IndexRecords → List α) {a : α} :
    a ∈ (items.flatMap fun it => x.txRecords (place nHeight it) (spentOf it.1.2)).flatMap field ↔
      ∃ s ∈ slots nHeight items, a ∈ field (x.connectSlot s) := by
  simp only [txRecords_slots hAddress, mem_flatMap, mem_append, List.mem_map, mem_slots]
  constructor
  · rintro ⟨r, ⟨it, hIt, ⟨s, hs, rfl⟩ | ⟨s, hs, rfl⟩⟩, ha⟩
    · exact ⟨s, ⟨it, hIt, Or.inl hs⟩, ha⟩
    · exact ⟨s, ⟨it, hIt, Or.inr hs⟩, ha⟩
  · rintro ⟨s, ⟨it, hIt, hs | hs⟩, ha⟩
    · exact ⟨_, ⟨it, hIt, Or.inl ⟨s, hs, rfl⟩⟩, ha⟩
    · exact ⟨_, ⟨it, hIt, Or.inr ⟨s, hs, rfl⟩⟩, ha⟩

/-- A record of a disconnected block belongs to a slot. -/
theorem mem_disconnected {α : Type} (field : IndexRecords → List α) {a : α} :
    a ∈ (items.reverse.flatMap fun it => x.undoTxRecords (place nHeight it) it.1.2).flatMap field ↔
      ∃ s ∈ slots nHeight items, a ∈ field (x.undoSlot s) := by
  simp only [undoTxRecords_slots hAddress, mem_flatMap, mem_append, List.mem_map,
    mem_reverse, mem_slots]
  constructor
  · rintro ⟨r, ⟨it, hIt, ⟨s, hs, rfl⟩ | ⟨s, hs, rfl⟩⟩, ha⟩
    · exact ⟨s, ⟨it, hIt, Or.inr hs⟩, ha⟩
    · exact ⟨s, ⟨it, hIt, Or.inl hs⟩, ha⟩
  · rintro ⟨s, ⟨it, hIt, hs | hs⟩, ha⟩
    · exact ⟨_, ⟨it, hIt, Or.inr ⟨s, hs, rfl⟩⟩, ha⟩
    · exact ⟨_, ⟨it, hIt, Or.inl ⟨s, hs, rfl⟩⟩, ha⟩

end Keys

/-! ## The address index -/

/-- The key in the address index under which connecting files a slot. -/
def connectKey (s : Slot) : Option CAddressIndexKey :=
  if s.spending then
    if 0 < (x.connectInput s.prevout s.out.scriptPubKey).address.1 then
      some (s.place.addressKey (x.connectInput s.prevout s.out.scriptPubKey).address s.index
        s.spending)
    else none
  else (x.connectOutput s.out.scriptPubKey).map fun f =>
    s.place.addressKey f.address s.index s.spending

/-- The key that disconnecting erases. -/
def undoKey (s : Slot) : Option CAddressIndexKey :=
  (x.undoFiling s.out.scriptPubKey).map fun f => s.place.addressKey f.address s.index s.spending

/-- Disconnecting finds the key of a slot: an output has no voting key, and a spent output was filed
under its address. -/
def FiledAlike (s : Slot) : Prop :=
  if s.spending then x.SpentAlike s.prevout s.out.scriptPubKey
  else s.out.scriptPubKey.isColdStakingv2 = false

theorem connectSlot_address (hAddress : x.fAddressIndex = true) (s : Slot) :
    (x.connectSlot s).addressIndex.map (·.1) = (x.connectKey s).toList := by
  unfold connectSlot connectKey
  cases hSpending : s.spending with
  | true =>
    simp only [if_true, inputRecords, hAddress, Bool.true_and, decide_eq_true_eq]
    split <;> rfl
  | false =>
    simp only [Bool.false_eq_true, if_false, outputRecords]
    cases x.connectOutput s.out.scriptPubKey <;> rfl

theorem undoSlot_address (hAddress : x.fAddressIndex = true) (s : Slot) :
    (x.undoSlot s).addressIndex.map (·.1) = (x.undoKey s).toList := by
  unfold undoSlot undoKey
  cases hSpending : s.spending with
  | true =>
    simp only [if_true, undoInputRecords, hAddress]
    cases x.undoFiling s.out.scriptPubKey <;> rfl
  | false =>
    simp only [Bool.false_eq_true, if_false, undoOutputRecords]
    cases x.undoFiling s.out.scriptPubKey <;> rfl

theorem addressKey_inj {a b : Nat × UInt160} {index : Nat} {spending : Bool}
    (h : p.addressKey a index spending = p.addressKey b index spending) : a = b := by
  simp only [TxPlace.addressKey, Prod.mk.injEq] at h
  exact Prod.ext h.1 h.2.1

/-- The position of the slot, in its key. -/
def position (k : CAddressIndexKey) : Nat × Nat × Bool :=
  (k.2.2.2.1, k.2.2.2.2.2.1, k.2.2.2.2.2.2)

theorem position_connectKey (h : x.connectKey s = some k) :
    position k = (s.place.i, s.index, s.spending) := by
  unfold connectKey at h
  split at h
  · split at h
    · cases h
      rfl
    · cases h
  · rw [map_eq_some_iff] at h
    obtain ⟨f, -, rfl⟩ := h
    rfl

theorem position_undoKey (h : x.undoKey s = some k) :
    position k = (s.place.i, s.index, s.spending) := by
  rw [undoKey, map_eq_some_iff] at h
  obtain ⟨f, -, rfl⟩ := h
  rfl

/-- **One slot.** -/
theorem filedAlike_iff (s : Slot) :
    (∀ k, x.connectKey s = some k → x.undoKey s = some k) ↔ x.FiledAlike s := by
  unfold FiledAlike
  cases hSpending : s.spending with
  | true =>
    rw [← x.connectInput_address_iff]
    constructor
    · intro h hPos
      have hKey := h (s.place.addressKey _ s.index s.spending)
        (by rw [connectKey, hSpending, if_pos rfl, if_pos hPos])
      rw [undoKey, map_eq_some_iff] at hKey
      obtain ⟨f, hf, hEq⟩ := hKey
      rw [hf, map_some, addressKey_inj hEq]
    · intro h k hk
      rw [connectKey, hSpending, if_pos rfl] at hk
      split at hk
      case isFalse => cases hk
      case isTrue hPos =>
        cases hk
        obtain ⟨f, hf, hEq⟩ := map_eq_some_iff.mp (h hPos)
        rw [undoKey, hf, map_some, hEq, hSpending]
  | false =>
    rw [← x.connectOutput_address_iff]
    have hItems := x.connectOutput_items (s := s.out.scriptPubKey)
    rw [connectKey, undoKey, hSpending, if_neg Bool.false_ne_true]
    cases hOut : x.connectOutput s.out.scriptPubKey with
    | none =>
      rw [hOut, map_none, eq_comm, map_eq_none_iff] at hItems
      rw [hItems]
      exact ⟨fun _ => rfl, fun _ k hk => by cases hk⟩
    | some f =>
      cases hUndo : x.undoFiling s.out.scriptPubKey with
      | none =>
        rw [hOut, hUndo] at hItems
        cases hItems
      | some f' =>
        simp only [map_some, some.injEq, forall_eq']
        exact ⟨fun h => (addressKey_inj h).symm, fun h => by rw [h]⟩

/-- **The address index** of a block that is connected and of one that is disconnected. -/
theorem addressIndex_keys (hAddress : x.fAddressIndex = true) :
    (k ∈ (x.connected nHeight items).addressIndex.map (·.1) ↔
      ∃ s ∈ slots nHeight items, x.connectKey s = some k) ∧
    (k ∈ (x.disconnected nHeight items).addressIndex.map (·.1) ↔
      ∃ s ∈ slots nHeight items, x.undoKey s = some k) := by
  constructor
  · rw [connected, IndexRecords.join, map_flatMap, mem_connected hAddress]
    simp only [connectSlot_address x hAddress, mem_toList]
  · rw [disconnected, IndexRecords.join, map_flatMap, mem_disconnected hAddress]
    simp only [undoSlot_address x hAddress, mem_toList]

/-- Every key is erased again exactly if each slot is filed alike. -/
theorem addressIndex_found_iff (hAddress : x.fAddressIndex = true) :
    (∀ k ∈ (x.connected nHeight (blockItems vtx vtxundo)).addressIndex.map (·.1),
      k ∈ (x.disconnected nHeight (blockItems vtx vtxundo)).addressIndex.map (·.1)) ↔
      ∀ s ∈ slots nHeight (blockItems vtx vtxundo), x.FiledAlike s := by
  simp only [x.addressIndex_keys hAddress, ← filedAlike_iff]
  constructor
  · intro h s hs k hk
    obtain ⟨s', hs', hk'⟩ := h k ⟨s, hs, hk⟩
    -- the key tells the position of the slot
    have hPosition := (x.position_connectKey hk).symm.trans (x.position_undoKey hk')
    simp only [Prod.mk.injEq] at hPosition
    rwa [slot_unique hs hs' hPosition.1 hPosition.2.1 hPosition.2.2]
  · rintro h k ⟨s, hs, hk⟩
    exact ⟨s, hs, h s hs k hk⟩

/-! ## The address history -/

/-- The stored keys of the history of a slot. -/
def historyKeys (s : Slot) : List CAddressHistoryKey :=
  (((x.undoFiling s.out.scriptPubKey).map (·.items)).getD []).map fun item =>
    ((item.hashBytes, item.hashBytes2, s.place.nHeight, s.place.tx.hash, s.place.tx.nTime),
      s.place.i)

theorem keys_touches (p : TxPlace) (items : List HistoryItem) (flags : Bool) (nValue : Int) :
    (p.touches items flags nValue).map (fun t => (t.key, t.txindex)) = items.map fun item =>
      ((item.hashBytes, item.hashBytes2, p.nHeight, p.tx.hash, p.tx.nTime), p.i) := by
  rw [TxPlace.touches, List.map_map]
  rfl

theorem connectSlot_history (s : Slot) :
    (x.connectSlot s).addressHistory.map (fun t => (t.key, t.txindex)) = x.historyKeys s := by
  unfold connectSlot historyKeys
  cases s.spending with
  | true =>
    rw [if_pos rfl, inputRecords, keys_touches, connectInput_items]
  | false =>
    rw [outputRecords, ← connectOutput_items]
    cases x.connectOutput s.out.scriptPubKey with
    | none => rfl
    | some f => exact keys_touches _ _ _ _

theorem undoSlot_history (hAddress : x.fAddressIndex = true) (s : Slot) :
    (x.undoSlot s).addressHistory.map (fun t => (t.key, t.txindex)) = x.historyKeys s := by
  unfold undoSlot historyKeys
  cases s.spending with
  | true =>
    rw [undoInputRecords, if_pos hAddress]
    cases x.undoFiling s.out.scriptPubKey with
    | none => rfl
    | some f => exact keys_touches _ _ _ _
  | false =>
    rw [undoOutputRecords]
    cases x.undoFiling s.out.scriptPubKey with
    | none => rfl
    | some f => exact keys_touches _ _ _ _

/-- **The history** of a block that is connected and of one that is disconnected have the same
keys. -/
theorem addressHistory_keys (hAddress : x.fAddressIndex = true) {k : CAddressHistoryKey} :
    (k ∈ (x.connected nHeight items).addressHistory.map (fun t => (t.key, t.txindex)) ↔
      ∃ s ∈ slots nHeight items, k ∈ x.historyKeys s) ∧
    (k ∈ (x.disconnected nHeight items).addressHistory.map (fun t => (t.key, t.txindex)) ↔
      ∃ s ∈ slots nHeight items, k ∈ x.historyKeys s) := by
  constructor
  · rw [connected, IndexRecords.join, map_flatMap, mem_connected hAddress]
    simp only [connectSlot_history]
  · rw [disconnected, IndexRecords.join, map_flatMap, mem_disconnected hAddress]
    simp only [undoSlot_history x hAddress]

/-- The slots of a block are about its transactions. -/
theorem slot_place (h : s ∈ slots nHeight (blockItems vtx vtxundo)) :
    s.place.nHeight = nHeight ∧ vtx[s.place.i]? = some s.place.tx := by
  obtain ⟨it, hIt, hs⟩ := mem_slots.mp h
  have hPlace : s.place = place nHeight it := by
    rcases hs with hs | hs
    · obtain ⟨e, -, rfl⟩ := mem_inputSlots.mp hs
      rfl
    · obtain ⟨e, -, rfl⟩ := mem_outputSlots.mp hs
      rfl
  rw [blockItems, mem_zipIdx_iff_getElem?, getElem?_zip_eq_some] at hIt
  rw [hPlace]
  exact ⟨rfl, hIt.1⟩

end Indexing

/-- The first addition to an entry makes it. -/
theorem historyMap_txindex (touches : List HistoryTouch) (k : HistoryOrder) :
    ((historyMap touches)[k]?).map (·.1) =
      (touches.find? fun t => decide (t.key = k)).map (·.txindex) := by
  refine foldl_invariant (fun done (m : Map HistoryOrder (Nat × CAddressHistoryValue)) =>
    (m[k]?).map (·.1) = (done.find? fun t => decide (t.key = k)).map (·.txindex)) touches ?_ ?_
  · rfl
  · intro done t rest m _ hm
    rw [Map.getElem?_upsert, find?_append]
    rcases eq_or_ne t.key k with rfl | hKey
    · rw [if_pos rfl, find?_singleton, decide_eq_true rfl]
      cases hOld : m[t.key]? with
      | none =>
        rw [hOld, map_none, eq_comm, map_eq_none_iff] at hm
        rw [hm]
        rfl
      | some e =>
        rw [hOld] at hm
        obtain ⟨t', ht', hEq⟩ := map_eq_some_iff.mp hm.symm
        rw [ht']
        exact congrArg some hEq.symm
    · rw [if_neg hKey, find?_singleton, decide_eq_false hKey, hm]
      simp

/-- The stored keys, if each entry is of one transaction. -/
theorem mem_historyEntries {touches : List HistoryTouch}
    (hSame : ∀ t ∈ touches, ∀ t' ∈ touches, t.key = t'.key → t.txindex = t'.txindex)
    {k : CAddressHistoryKey} :
    k ∈ (historyEntries touches).map (·.1) ↔ k ∈ touches.map fun t => (t.key, t.txindex) := by
  have hEntry : k ∈ (historyEntries touches).map (·.1) ↔
      ((historyMap touches)[k.1]?).map (·.1) = some k.2 := by
    simp only [historyEntries, List.map_map, List.mem_map, map_eq_some_iff]
    constructor
    · rintro ⟨⟨key, e⟩, hMem, rfl⟩
      exact ⟨e, Std.ExtTreeMap.mem_toList_iff_getElem?_eq_some.mp hMem, rfl⟩
    · rintro ⟨e, hAt, hEq⟩
      exact ⟨(k.1, e), Std.ExtTreeMap.mem_toList_iff_getElem?_eq_some.mpr hAt, Prod.ext rfl hEq⟩
  rw [hEntry, historyMap_txindex, List.mem_map, map_eq_some_iff]
  constructor
  · rintro ⟨t, hFind, hIndex⟩
    have hKey := find?_some hFind
    rw [decide_eq_true_eq] at hKey
    exact ⟨t, mem_of_find?_eq_some hFind, Prod.ext hKey hIndex⟩
  · rintro ⟨t, hMem, rfl⟩
    cases hFind : touches.find? fun t' => decide (t'.key = t.key) with
    | none =>
      have hNot := find?_eq_none.mp hFind t hMem
      exact absurd (decide_eq_true rfl) hNot
    | some t' =>
      have hKey := find?_some hFind
      rw [decide_eq_true_eq] at hKey
      exact ⟨t', rfl, hSame t' (mem_of_find?_eq_some hFind) t hMem hKey⟩

/-! ## What disconnecting leaves -/

/-- Exactly these records are gone. -/
structure IndexRecords.Undone (r : IndexRecords) (before after : IndexDB) : Prop where
  addressIndex : Map.Undone (r.addressIndex.map (·.1)) before.addressIndex after.addressIndex
  addressHistory : Map.Undone ((historyEntries r.addressHistory).map (·.1))
    before.addressHistory after.addressHistory
  spentIndex : Map.Undone (r.spentIndex.map (·.1)) before.spentIndex after.spentIndex

namespace Indexing

variable {x : Indexing} {nHeight : Nat} {vtx : List CTransaction} {vtxundo : List (List CTxInUndo)}

/-- **The history is undone**, if the transactions have different identifiers. -/
theorem addressHistory_undone (hAddress : x.fAddressIndex = true)
    (hIds : (vtx.map (·.hash)).Nodup) (m : Map CAddressHistoryKey CAddressHistoryValue) :
    Map.Undone ((historyEntries (x.connected nHeight (blockItems vtx vtxundo)).addressHistory).map
        (·.1)) m
      (((historyEntries (x.disconnected nHeight (blockItems vtx vtxundo)).addressHistory).map
        (·.1)).foldl (fun m k => m.erase k)
        ((historyEntries (x.connected nHeight (blockItems vtx vtxundo)).addressHistory).foldl
          (fun m it => m.insert it.1 it.2) m)) := by
  -- a key holds the identifier of the transaction, and so tells its position
  have hPosition : ∀ k k' : CAddressHistoryKey,
      (∃ s ∈ slots nHeight (blockItems vtx vtxundo), k ∈ x.historyKeys s) →
      (∃ s ∈ slots nHeight (blockItems vtx vtxundo), k' ∈ x.historyKeys s) → k.1 = k'.1 →
      k.2 = k'.2 := by
    rintro k k' ⟨s, hs, hk⟩ ⟨s', hs', hk'⟩ hKey
    obtain ⟨item, -, rfl⟩ := List.mem_map.mp hk
    obtain ⟨item', -, rfl⟩ := List.mem_map.mp hk'
    simp only [Prod.mk.injEq] at hKey
    have hLength := (List.getElem?_eq_some_iff.mp (slot_place hs).2).1
    rw [← length_map (·.hash)] at hLength
    refine (getElem?_inj hLength hIds).mp ?_
    rw [getElem?_map, getElem?_map, (slot_place hs).2, (slot_place hs').2,
      map_some, map_some, hKey.2.2.2.1]
  have hMem : ∀ {touches : List HistoryTouch}, (∀ k, k ∈ touches.map (fun t => (t.key, t.txindex)) ↔
        ∃ s ∈ slots nHeight (blockItems vtx vtxundo), k ∈ x.historyKeys s) →
      ∀ k, k ∈ (historyEntries touches).map (·.1) ↔
        ∃ s ∈ slots nHeight (blockItems vtx vtxundo), k ∈ x.historyKeys s := by
    intro touches hKeys k
    refine (mem_historyEntries fun t ht t' ht' hSame => ?_).trans (hKeys k)
    exact hPosition (t.key, t.txindex) (t'.key, t'.txindex) ((hKeys _).mp (mem_map_of_mem ht))
      ((hKeys _).mp (mem_map_of_mem ht')) hSame
  have hConnect := hMem fun k => (x.addressHistory_keys hAddress (k := k)).1
  have hUndo := hMem fun k => (x.addressHistory_keys hAddress (k := k)).2
  refine Map.undone_iff.mpr ⟨fun k hk => (hUndo k).mpr ((hConnect k).mp hk), ?_⟩
  exact fun k hk hNot => absurd ((hConnect k).mpr ((hUndo k).mp hk)) hNot

/-- The spent index has a record for each input. -/
theorem mem_spentIndex (hAddress : x.fAddressIndex = true)
    {it : CSpentIndexKey × CSpentIndexValue} :
    it ∈ (x.connected nHeight (blockItems vtx vtxundo)).spentIndex ↔
      ∃ s ∈ slots nHeight (blockItems vtx vtxundo), s.spending = true ∧
        it ∈ (x.inputRecords s.place s.index s.prevout s.out).spentIndex := by
  rw [connected, IndexRecords.join, mem_connected hAddress]
  refine exists_congr fun s => and_congr_right fun _ => ?_
  rw [connectSlot]
  cases s.spending with
  | true => simp
  | false =>
    rw [outputRecords]
    cases x.connectOutput s.out.scriptPubKey <;> simp [IndexRecords.empty]

/-- **The spent index is undone** only if nothing is spent: `DisconnectBlock` leaves it alone. -/
theorem spentIndex_undone_iff (hAddress : x.fAddressIndex = true) (hSpent : x.fSpentIndex = true)
    (hHashes : ∀ tx ∈ vtx, tx.hash ≠ 0) (m : Map CSpentIndexKey CSpentIndexValue) :
    Map.Undone ((x.connected nHeight (blockItems vtx vtxundo)).spentIndex.map (·.1)) m
        (updateSpent m (x.connected nHeight (blockItems vtx vtxundo)).spentIndex) ↔
      ∀ s ∈ slots nHeight (blockItems vtx vtxundo), s.spending = false := by
  have hRecord : ∀ s : Slot, (x.inputRecords s.place s.index s.prevout s.out).spentIndex =
      [((s.prevout.hash, s.prevout.n), ⟨s.place.tx.hash, s.index, s.place.nHeight, s.out.nValue,
        (x.connectInput s.prevout s.out.scriptPubKey).address.1,
        (x.connectInput s.prevout s.out.scriptPubKey).address.2⟩)] := fun s => if_pos hSpent
  have hWritten : ∀ it ∈ (x.connected nHeight (blockItems vtx vtxundo)).spentIndex,
      CSpentIndexValue.isNull it.2 = false := by
    intro it hIt
    obtain ⟨s, hs, -, hMem⟩ := (mem_spentIndex hAddress).mp hIt
    rw [hRecord, mem_singleton] at hMem
    rw [hMem]
    exact beq_eq_false_iff_ne.mpr (hHashes _ (mem_of_getElem? (slot_place hs).2))
  rw [updateSpent, Map.foldl_setUnless_eq hWritten]
  refine Map.undone_foldl_insert_iff.trans ⟨fun h s hs => eq_false_of_ne_true fun hSpending => ?_,
    fun h => eq_nil_iff_forall_not_mem.mpr fun it hIt => ?_⟩
  · have hIt := (mem_spentIndex hAddress).mpr
      ⟨s, hs, hSpending, (hRecord s).symm ▸ mem_singleton_self _⟩
    rw [h] at hIt
    cases hIt
  · obtain ⟨s, hs, hSpending, -⟩ := (mem_spentIndex hAddress).mp hIt
    rw [h s hs] at hSpending
    cases hSpending

/-- An output that was not filed is not looked for. -/
theorem undoKey_none {s : Slot} (hSpending : s.spending = false) (h : x.connectKey s = none) :
    x.undoKey s = none := by
  have hItems := x.connectOutput_items (s := s.out.scriptPubKey)
  rw [connectKey, hSpending, if_neg Bool.false_ne_true, map_eq_none_iff] at h
  rw [h, map_none, eq_comm, map_eq_none_iff] at hItems
  rw [undoKey, hItems, map_none]

/-- **The records of a block are undone** exactly if it spends nothing and pays to no address with a
voting key. -/
theorem undone_iff_slots (hAddress : x.fAddressIndex = true) (hSpent : x.fSpentIndex = true)
    (hHashes : ∀ tx ∈ vtx, tx.hash ≠ 0)
    (hIds : (∀ s ∈ slots nHeight (blockItems vtx vtxundo), s.spending = false) →
      (vtx.map (·.hash)).Nodup) (db : IndexDB) :
    (x.connected nHeight (blockItems vtx vtxundo)).Undone db
        ((db.write x (x.connected nHeight (blockItems vtx vtxundo))).erase x
          (x.disconnected nHeight (blockItems vtx vtxundo))) ↔
      ∀ s ∈ slots nHeight (blockItems vtx vtxundo),
        s.spending = false ∧ s.out.scriptPubKey.isColdStakingv2 = false := by
  rw [write, if_pos hAddress, if_pos hSpent, erase, if_pos hAddress]
  constructor
  · rintro ⟨hIndex, -, hSpends⟩ s hs
    have hSpending := (spentIndex_undone_iff hAddress hSpent hHashes db.spentIndex).mp hSpends s hs
    have hAlike := (x.addressIndex_found_iff hAddress).mp (Map.undone_iff.mp hIndex).1 s hs
    rw [FiledAlike, hSpending] at hAlike
    exact ⟨hSpending, hAlike⟩
  · intro h
    have hSpending := fun s hs => (h s hs).1
    have hAlike : ∀ s ∈ slots nHeight (blockItems vtx vtxundo), x.FiledAlike s := by
      intro s hs
      rw [FiledAlike, hSpending s hs]
      exact (h s hs).2
    refine ⟨Map.undone_iff.mpr ⟨(x.addressIndex_found_iff hAddress).mpr hAlike, ?_⟩,
      addressHistory_undone hAddress (hIds hSpending) db.addressHistory,
      (spentIndex_undone_iff hAddress hSpent hHashes db.spentIndex).mpr hSpending⟩
    intro k hk hNot
    obtain ⟨s, hs, hKey⟩ := (x.addressIndex_keys hAddress).2.mp hk
    cases hConnect : x.connectKey s with
    | none =>
      rw [undoKey_none (hSpending s hs) hConnect] at hKey
      cases hKey
    | some k' =>
      have hSame := (x.filedAlike_iff s).mpr (hAlike s hs) k' hConnect
      obtain rfl : k = k' := some.inj (hKey.symm.trans hSame)
      exact absurd ((x.addressIndex_keys hAddress).1.mpr ⟨s, hs, hConnect⟩) hNot

/-- A block in which nothing is spent has one transaction. -/
theorem slots_unspending_iff {coinbase : CTransaction} {rest : List CTransaction}
    (hVin : ∀ tx ∈ rest, tx.vin ≠ [])
    (hUndo : List.Forall₂ (fun (tx : CTransaction) (undo : List CTxInUndo) =>
      undo.length = tx.vin.length) rest vtxundo) :
    (∀ s ∈ slots nHeight (blockItems (coinbase :: rest) vtxundo), s.spending = false) ↔
      rest = [] := by
  constructor
  · intro h
    cases hUndo with
    | nil => rfl
    | @cons tx undo rest vtxundo hLength hRest =>
      -- the first input of the second transaction
      obtain ⟨txin, vin, hTx⟩ := exists_cons_of_ne_nil (hVin tx mem_cons_self)
      rw [hTx] at hLength
      obtain ⟨u, us, rfl⟩ := exists_cons_of_length_eq_add_one hLength
      have hSlot : (⟨⟨nHeight, 1, tx⟩, 0, true, txin.prevout, u.txout, u.nHeight⟩ : Slot) ∈
          slots nHeight (blockItems (coinbase :: tx :: rest) ((u :: us) :: vtxundo)) := by
        refine mem_slots.mpr ⟨((tx, some (u :: us)), 1), ?_, Or.inl (mem_inputSlots.mpr
          ⟨((txin, u), 0), ?_, rfl⟩)⟩
        · exact mem_zipIdx_iff_getElem?.mpr rfl
        · show ((txin, u), 0) ∈ (tx.vin.zip (u :: us)).zipIdx
          rw [hTx]
          exact mem_cons_self
      cases h _ hSlot
  · rintro rfl s hs
    obtain ⟨it, hIt, hs⟩ := mem_slots.mp hs
    obtain rfl := mem_singleton.mp hIt
    rcases hs with hs | hs
    · obtain ⟨e, he, -⟩ := mem_inputSlots.mp hs
      rw [getD_none, zip_nil_right] at he
      cases he
    · obtain ⟨e, -, rfl⟩ := mem_outputSlots.mp hs
      rfl

/-- **Which blocks.** Exactly the records that connecting a block wrote are erased when it is
disconnected, if and only if its coinbase is its only transaction and pays to no cold staking
address with a voting key. -/
theorem indexes_undone_iff {node : Node} {block : CBlock} {pindex : CBlockIndex} {pprev : Chain}
    {fund : Fund} {recorded : RecordedVotes} {view : CStateView} {r : Connected}
    (hAddress : x.fAddressIndex = true) (hSpent : x.fSpentIndex = true)
    (hConnect : connectBlock node block pindex pprev fund recorded view = .ok r)
    (hGenesis : block.hash ≠ node.params.genesis.hash) (hHashes : ∀ tx ∈ block.vtx, tx.hash ≠ 0)
    (view' : CStateView) (db : IndexDB) :
    ∃ db', x.disconnectIndexes pindex.nHeight block r.vtxundo view'
        (x.connectIndexes pindex.nHeight block view db) = some db' ∧
      ((IndexRecords.join (x.connectRecords pindex.nHeight block.vtx.zipIdx view)).Undone db db' ↔
        block.vtx.length = 1 ∧ ∀ tx ∈ block.vtx, ∀ out ∈ tx.vout,
          out.scriptPubKey.isColdStakingv2 = false) := by
  refine ⟨_, disconnectRecords_connected x hConnect hGenesis view' _, ?_⟩
  rw [connectIndexes, connectRecords_connected x hConnect hGenesis]
  obtain ⟨hCheck, hRest⟩ := connectBlock_ok hConnect
  obtain ⟨run⟩ := (hRest.resolve_left fun h => hGenesis h.1).2
  obtain ⟨coinbase, rest, hVtx, -, -, hOthers, -⟩ := checkBlock_vtx hCheck
  have hUndo := run.undo_fits (by
    rw [hVtx]
    exact fun tx hTx => (hOthers tx hTx).2)
  rw [hVtx] at hUndo
  rw [hVtx] at hHashes ⊢
  -- any other transaction has an input, and so a slot that spends
  have hAlone : (∀ s ∈ slots pindex.nHeight (blockItems (coinbase :: rest) r.vtxundo),
      s.spending = false) ↔ rest = [] :=
    slots_unspending_iff (fun tx hTx => checkTransaction_vin (hOthers tx hTx).1) hUndo
  rw [undone_iff_slots hAddress hSpent hHashes (fun h => by rw [hAlone.mp h]; simp)]
  constructor
  · intro h
    obtain rfl := hAlone.mp fun s hs => (h s hs).1
    refine ⟨rfl, fun tx hTx out hOut => ?_⟩
    obtain rfl := mem_singleton.mp hTx
    obtain ⟨k, hk⟩ := getElem?_of_mem hOut
    refine (h ⟨⟨pindex.nHeight, 0, tx⟩, k, false, ⟨tx.hash, k⟩, out, 0⟩ ?_).2
    exact mem_slots.mpr ⟨((tx, none), 0), mem_zipIdx_iff_getElem?.mpr rfl,
      Or.inr (mem_outputSlots.mpr ⟨(out, k), mem_zipIdx_iff_getElem?.mpr hk, rfl⟩)⟩
  · rintro ⟨hLength, hOuts⟩ s hs
    obtain rfl : rest = [] := length_eq_zero_iff.mp (Nat.succ.inj hLength)
    have hSpending := hAlone.mpr rfl s hs
    refine ⟨hSpending, ?_⟩
    have hPlace := mem_of_getElem? (slot_place hs).2
    obtain ⟨it, -, hIn | hOut⟩ := mem_slots.mp hs
    · obtain ⟨e, -, rfl⟩ := mem_inputSlots.mp hIn
      cases hSpending
    · obtain ⟨e, he, rfl⟩ := mem_outputSlots.mp hOut
      exact hOuts _ hPlace e.1 (mem_of_getElem? (mem_zipIdx_iff_getElem?.mp he))

/-- Both indexes, and a hash that takes the first bytes. -/
def both : Indexing := ⟨true, true, take 20, fun _ => 0⟩

/-- A second block whose coinbase pays to a key writes a record in the address index and one in the
history, and both are undone. -/
theorem indexes_undone_coinbase : ∃ st r db',
    connectOn (.developing matureChain []) [devBlock 1 voterScript []]
      (devBlock 2 voterScript []) = some (st, r) ∧
    (both.connectIndexes 2 (devBlock 2 voterScript []) st.view .empty).addressIndex.size = 1 ∧
    (both.connectIndexes 2 (devBlock 2 voterScript []) st.view .empty).addressHistory.size = 1 ∧
    both.disconnectIndexes 2 (devBlock 2 voterScript []) r.vtxundo r.view
      (both.connectIndexes 2 (devBlock 2 voterScript []) st.view .empty) = some db' ∧
    (IndexRecords.join
      (both.connectRecords 2 (devBlock 2 voterScript []).vtx.zipIdx st.view)).Undone .empty db' := by
  obtain ⟨st, r, hSome, hHeight, hAddress, hHistory⟩ : ∃ st r,
      connectOn (.developing matureChain []) [devBlock 1 voterScript []]
        (devBlock 2 voterScript []) = some (st, r) ∧
      (childIndex st.chain (devBlock 2 voterScript [])).nHeight = 2 ∧
      (both.connectIndexes 2 (devBlock 2 voterScript []) st.view .empty).addressIndex.size = 1 ∧
      (both.connectIndexes 2 (devBlock 2 voterScript []) st.view
        .empty).addressHistory.size = 1 := by
    decide +kernel
  obtain ⟨db', hDisconnect, hIff⟩ := indexes_undone_iff (x := both) rfl rfl (connectOn_some hSome).2
    (by decide) (by decide) r.view .empty
  rw [hHeight] at hDisconnect hIff
  exact ⟨st, r, db', hSome, hAddress, hHistory, hDisconnect, hIff.mpr (by decide)⟩

/-- The spent record of a coinbase that was spent stays. -/
theorem spentRecord_stays : ∃ st r db',
    connectOn (.developing (matureChain ++ [matureBlock]) []) matureChain matureBlock =
      some (st, r) ∧
    Indexing.both.disconnectIndexes 7 matureBlock r.vtxundo r.view
      (Indexing.both.connectIndexes 7 matureBlock st.view .empty) = some db' ∧
    db'.spentIndex[((1001, 0) : CSpentIndexKey)]? =
      some ⟨2001, 0, 7, getBlockSubsidy 1, 1, replicate 20 7⟩ := by
  simp only [exists_and_left]
  decide +kernel

end Indexing

end Electrum
