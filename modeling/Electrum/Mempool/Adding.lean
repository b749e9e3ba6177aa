import Electrum.Lib.Fold
import Electrum.Mempool.Packages

/-!
# A new entry of the pool

`addUnchecked` enters a transaction, links it to its parents and updates the sums of its ancestors
and its own.  It does not look for children: a new transaction has none.

Main results:
* `addUnchecked_added` — what it does to the entries and the links
* `Added.linked`, `Added.summed` — the links stay in order and the sums right
-/

namespace Electrum

open Relation Option Finset

namespace CTxMemPool

variable {pool : CTxMemPool}

/-! ## A new entry -/

/-- The entry as it is entered, with a fee delta that was set before. -/
def withDelta (pool : CTxMemPool) (entry : CTxMemPoolEntry) : CTxMemPoolEntry :=
  if (pool.mapDeltas[entry.tx.hash]?).getD 0 = 0 then entry
  else entry.updateFeeDelta ((pool.mapDeltas[entry.tx.hash]?).getD 0)

@[simp] theorem withDelta_tx (entry : CTxMemPoolEntry) : (pool.withDelta entry).tx = entry.tx := by
  unfold withDelta
  split <;> rfl

@[simp] theorem withDelta_sigOpCost (entry : CTxMemPoolEntry) :
    (pool.withDelta entry).sigOpCost = entry.sigOpCost := by
  unfold withDelta
  split <;> rfl

variable {entry : CTxMemPoolEntry}

theorem withDelta_feeDelta (hZero : entry.feeDelta = 0) :
    (pool.withDelta entry).feeDelta = (pool.mapDeltas[entry.tx.hash]?).getD 0 := by
  unfold withDelta
  split
  case isTrue hNone => rw [hZero, hNone]
  case isFalse => rfl

theorem withDelta_states (hAnc : entry.ancestorState = entry.own)
    (hDesc : entry.descendantState = entry.share) :
    (pool.withDelta entry).ancestorState = (pool.withDelta entry).own ∧
      (pool.withDelta entry).descendantState = (pool.withDelta entry).share := by
  unfold withDelta
  split
  case isTrue => exact ⟨hAnc, hDesc⟩
  case isFalse =>
    have hStates := CTxMemPoolEntry.updateFeeDelta_states 0 0 entry
      ((pool.mapDeltas[entry.tx.hash]?).getD 0) (by rw [hAnc, add_zero]) (by rw [hDesc, add_zero])
    rwa [add_zero, add_zero] at hStates

theorem enterEntry_mapTx (hNew : entry.tx.hash ∉ pool.hashes)
    (h : UInt256) : (pool.enterEntry entry).mapTx[h]? =
      if entry.tx.hash = h then some (pool.withDelta entry) else pool.mapTx[h]? := by
  have hNot : entry.tx.hash ∉ pool.mapTx := by
    rwa [mem_hashes, Std.ExtTreeMap.isSome_getElem?_iff_mem] at hNew
  unfold enterEntry withDelta
  dsimp only
  split
  case isTrue =>
    rw [Std.ExtTreeMap.getElem?_insertIfNew]
    by_cases hEq : entry.tx.hash = h
    · simp [hEq, hEq ▸ hNot]
    · simp [hEq]
  case isFalse =>
    unfold modify
    rw [Map.getElem?_modify_eq, Std.ExtTreeMap.getElem?_insertIfNew]
    by_cases hEq : entry.tx.hash = h
    · simp [hEq, hEq ▸ hNot]
    · simp [hEq]

theorem enterEntry_mapLinks (entry : CTxMemPoolEntry) :
    (pool.enterEntry entry).mapLinks = pool.mapLinks.insertIfNew entry.tx.hash {} := by
  unfold enterEntry
  dsimp only
  split <;> rfl

theorem enterEntry_mapDeltas (entry : CTxMemPoolEntry) :
    (pool.enterEntry entry).mapDeltas = pool.mapDeltas := by
  unfold enterEntry
  dsimp only
  split <;> rfl

theorem enterEntry_mapNextTx (entry : CTxMemPoolEntry) (o : UInt256 × Nat) :
    (pool.enterEntry entry).mapNextTx[o]? = (pool.mapNextTx[o]?).or
      (if o ∈ entry.tx.vin.map (·.prevout.key) then some entry.tx else none) := by
  have hMap : (pool.enterEntry entry).mapNextTx = (entry.tx.vin.map (·.prevout.key)).foldl
      (fun mapNextTx k => mapNextTx.insertIfNew k entry.tx) pool.mapNextTx := by
    unfold enterEntry
    dsimp only
    rw [List.foldl_map]
    split <;> rfl
  rw [hMap, Map.getElem?_foldl_insertIfNew]
  congr

/-- An entry without links reads as one with empty links. -/
theorem enterEntry_parents (entry : CTxMemPoolEntry) :
    (pool.enterEntry entry).getMemPoolParents = pool.getMemPoolParents := by
  funext h
  unfold getMemPoolParents
  rw [enterEntry_mapLinks, Std.ExtTreeMap.getElem?_insertIfNew]
  split
  case isTrue hNew =>
    have hEq : entry.tx.hash = h := Std.compare_eq_iff_eq.mp hNew.1
    subst hEq
    rw [Std.ExtTreeMap.getElem?_eq_none hNew.2]
    rfl
  case isFalse => rfl

theorem enterEntry_children (entry : CTxMemPoolEntry) :
    (pool.enterEntry entry).getMemPoolChildren = pool.getMemPoolChildren := by
  funext h
  unfold getMemPoolChildren
  rw [enterEntry_mapLinks, Std.ExtTreeMap.getElem?_insertIfNew]
  split
  case isTrue hNew =>
    have hEq : entry.tx.hash = h := Std.compare_eq_iff_eq.mp hNew.1
    subst hEq
    rw [Std.ExtTreeMap.getElem?_eq_none hNew.2]
    rfl
  case isFalse => rfl

/-- The new entry gets its parents in the pool, and nothing else changes. -/
theorem linkParents_spec (tx : CTransaction) : SameBut pool (pool.linkParents tx) ∧
    (∀ h, (pool.linkParents tx).getMemPoolChildren h = pool.getMemPoolChildren h) ∧
    (∀ p h, (pool.linkParents tx).Parent p h ↔
      pool.Parent p h ∨ (h = tx.hash ∧ p ∈ pool.inPoolParents tx)) := by
  have hInputs : ∀ p, p ∈ pool.inPoolParents tx ↔
      p ∈ inOrder (tx.vin.map (·.prevout.hash)).toFinset ∧ p ∈ pool.hashes := by
    intro p
    rw [mem_inOrder, List.mem_toFinset, mem_inPoolParents, List.mem_map, and_comm]
  simp only [hInputs]
  -- of the hashes met so far, those that are in the pool are parents
  refine foldl_invariant (fun done pool' => SameBut pool pool' ∧
    (∀ h, pool'.getMemPoolChildren h = pool.getMemPoolChildren h) ∧ ∀ p h, pool'.Parent p h ↔
      pool.Parent p h ∨ (h = tx.hash ∧ p ∈ done ∧ p ∈ pool.hashes)) _ ?_ ?_
  · exact ⟨⟨rfl, rfl, rfl⟩, fun _ => rfl, fun p h => by simp⟩
  · rintro done phash rest pool' - ⟨hSame, hChildren, hParents⟩
    have hHas : pool'.has phash = true ↔ phash ∈ pool.hashes := by
      rw [has_iff, hSame.shifted.hashes]
    simp only [List.mem_append, List.mem_singleton]
    split
    case isTrue hIn =>
      rw [hHas] at hIn
      refine ⟨hSame.trans ⟨rfl, rfl, rfl⟩, fun h => ?_, fun p h => ?_⟩
      · rw [updateParent_children, hChildren]
      · have hOld := hParents p h
        unfold Parent at hOld ⊢
        rw [updateParent_parents]
        by_cases hEq : tx.hash = h
        · subst hEq
          rw [if_pos rfl, if_pos rfl, mem_insert, hOld]
          constructor
          · rintro (rfl | hOld | ⟨-, hp⟩)
            · exact .inr ⟨rfl, .inr rfl, hIn⟩
            · exact .inl hOld
            · exact .inr ⟨rfl, .inl hp.1, hp.2⟩
          · rintro (hOld | ⟨-, hp | rfl, hpIn⟩)
            · exact .inr (.inl hOld)
            · exact .inr (.inr ⟨rfl, hp, hpIn⟩)
            · exact .inl rfl
        · rw [if_neg hEq, hOld]
          simp [Ne.symm hEq]
    case isFalse hOut =>
      rw [hHas] at hOut
      refine ⟨hSame, hChildren, fun p h => (hParents p h).trans (or_congr_right ?_)⟩
      refine and_congr_right fun _ => and_congr_left fun hp => (or_iff_left ?_).symm
      rintro rfl
      exact hOut hp

/-- The ancestors gain, or lose, the share of one entry. -/
theorem updateAncestorsOf_spec {it : UInt256} (hIt : it ∈ pool.hashes) (add : Bool)
    (setAncestors : Finset UInt256) :
    Shifted pool (pool.updateAncestorsOf add it setAncestors) (fun _ => 0)
      (fun h => if h ∈ setAncestors then (if add then pool.share it else -pool.share it) else 0) ∧
    (∀ h, (pool.updateAncestorsOf add it setAncestors).getMemPoolParents h =
      pool.getMemPoolParents h) ∧
    (∀ h c, c ∈ (pool.updateAncestorsOf add it setAncestors).getMemPoolChildren h ↔
      if add then c ∈ pool.getMemPoolChildren h ∨ (pool.Parent h it ∧ c = it)
      else c ∈ pool.getMemPoolChildren h ∧ ¬ (pool.Parent h it ∧ c = it)) := by
  obtain ⟨hSame, hParents, hChildren⟩ :=
    @foldl_updateChild pool (inOrder (pool.getMemPoolParents it)) it add
  unfold updateAncestorsOf
  generalize (inOrder (pool.getMemPoolParents it)).foldl
    (fun pool piter => pool.updateChild piter it add) pool = linked at hSame hParents hChildren
  simp only [CTxMemPoolEntry.updateDescendantState_eq]
  have hShare : linked.share it = pool.share it := by rw [hSame.shifted.share]
  have hAmount : ((if add then (1 : Int) else -1),
      (if add then (1 : Int) else -1) * linked.valueAt it (·.nTxSize),
      (if add then (1 : Int) else -1) * linked.valueAt it (·.getModifiedFee)) =
      if add then pool.share it else -pool.share it := by
    rw [valueAt_nTxSize, valueAt_getModifiedFee, hShare]
    have hCount := share_count hIt
    cases add with
    | true => simp [Prod.ext_iff, hCount]
    | false => simp [Prod.ext_iff, hCount]
  rw [hAmount]
  refine ⟨?_, fun h => ?_, fun h c => ?_⟩
  · have hBoth := hSame.shifted.trans (@modifyEach_shifted linked setAncestors 0
      (if add then pool.share it else -pool.share it))
    refine ⟨fun h => ?_, hBoth.nextTx, hBoth.deltas⟩
    rw [hBoth.entry]
    simp
  · rw [parents_congr (modifyEach_mapLinks _ _), hParents]
  · rw [children_congr (modifyEach_mapLinks _ _), hChildren, mem_inOrder]
    rfl

/-- The entry gains the shares of its ancestors. -/
theorem updateEntryForAncestors_spec {setAncestors : Finset UInt256}
    (hSub : setAncestors ⊆ pool.hashes) (hCost : 0 ≤ (∑ a ∈ setAncestors, pool.own a).2 ∧
      (∑ a ∈ setAncestors, pool.own a).2 < 2 ^ 31) (it : UInt256) :
    Shifted pool (pool.updateEntryForAncestors it setAncestors)
      (fun h => if h = it then ∑ a ∈ setAncestors, pool.own a else 0) (fun _ => 0) := by
  have hSum : ((((setAncestors.card : Int), ∑ a ∈ setAncestors, pool.valueAt a (·.nTxSize),
      ∑ a ∈ setAncestors, pool.valueAt a (·.getModifiedFee)),
      toI32 (∑ a ∈ setAncestors, pool.valueAt a (·.sigOpCost))) : (Int × Int × Int) × Int) =
      ∑ a ∈ setAncestors, pool.own a := by
    rw [sum_share hSub, ← sum_own, toI32_of_small]
    · rw [← sum_own] at hCost
      exact le_trans (by decide) hCost.1
    · rw [← sum_own] at hCost
      exact hCost.2
  have hShift := @modify_shifted pool it (∑ a ∈ setAncestors, pool.own a) 0
  unfold updateEntryForAncestors
  simp only [CTxMemPoolEntry.updateAncestorState_eq, hSum]
  refine ⟨fun h => ?_, hShift.nextTx, hShift.deltas⟩
  rw [hShift.entry]
  simp

/-- **A new entry** as a whole: it gets the sum over its ancestors, each of them gets its share, and
it is linked to its parents. -/
structure Added (pool pool' : CTxMemPool) (entry : CTxMemPoolEntry)
    (setAncestors : Finset UInt256) : Prop where
  entries : ∀ h, pool'.mapTx[h]? = if entry.tx.hash = h
    then some ((pool.withDelta entry).shift (∑ a ∈ setAncestors, pool.own a) 0)
    else (pool.mapTx[h]?).map (CTxMemPoolEntry.shift 0
      (if h ∈ setAncestors then (pool.withDelta entry).share else 0))
  parents : ∀ p h, pool'.Parent p h ↔
    pool.Parent p h ∨ (h = entry.tx.hash ∧ p ∈ pool.inPoolParents entry.tx)
  children : ∀ h c, c ∈ pool'.getMemPoolChildren h ↔ c ∈ pool.getMemPoolChildren h ∨
    (c = entry.tx.hash ∧ h ∈ pool.inPoolParents entry.tx)
  nextTx : ∀ o, pool'.mapNextTx[o]? = (pool.mapNextTx[o]?).or
    (if o ∈ entry.tx.vin.map (·.prevout.key) then some entry.tx else none)
  deltas : pool'.mapDeltas = pool.mapDeltas

/-- **What `addUnchecked` does**, on a pool whose links are consistent. -/
theorem addUnchecked_added (hLinked : pool.Linked)
    (hNew : entry.tx.hash ∉ pool.hashes) (hSelf : ∀ i ∈ entry.tx.vin, i.prevout.hash ≠ entry.tx.hash)
    {setAncestors : Finset UInt256} (hSub : setAncestors ⊆ pool.hashes) :
    Added pool (pool.addUnchecked entry setAncestors) entry setAncestors := by
  -- the entry is there
  have hEnter := enterEntry_mapTx hNew
  have hAt : (pool.enterEntry entry).mapTx[entry.tx.hash]? = some (pool.withDelta entry) := by
    rw [hEnter, if_pos rfl]
  have hHashes : ∀ h, h ∈ (pool.enterEntry entry).hashes ↔ h = entry.tx.hash ∨ h ∈ pool.hashes := by
    intro h
    rw [mem_hashes, hEnter]
    by_cases hEq : entry.tx.hash = h
    · simp [hEq]
    · rw [if_neg hEq, ← mem_hashes]
      simp [Ne.symm hEq]
  have hOwn : ∀ a ∈ setAncestors, (pool.enterEntry entry).own a = pool.own a := by
    intro a ha
    have hNe : entry.tx.hash ≠ a := fun hEq => hNew (hEq ▸ hSub ha)
    unfold own
    rw [hEnter, if_neg hNe]
  have hInPool : (pool.enterEntry entry).inPoolParents entry.tx = pool.inPoolParents entry.tx := by
    ext p
    rw [mem_inPoolParents, mem_inPoolParents, hHashes]
    constructor
    · rintro ⟨rfl | hIn, i, hi, hEq⟩
      · exact absurd hEq (hSelf i hi)
      · exact ⟨hIn, i, hi, hEq⟩
    · rintro ⟨hIn, hInput⟩
      exact ⟨.inr hIn, hInput⟩
  -- its parents
  obtain ⟨hSame, hChildren, hParents⟩ := (pool.enterEntry entry).linkParents_spec entry.tx
  rw [hInPool] at hParents
  generalize hLink : (pool.enterEntry entry).linkParents entry.tx = linked at hSame hChildren hParents
  have hIt : entry.tx.hash ∈ linked.hashes := by
    rw [hSame.shifted.hashes, hHashes]
    exact .inl rfl
  have hShare : linked.share entry.tx.hash = (pool.withDelta entry).share := by
    rw [hSame.shifted.share, share_of_some hAt]
  -- its ancestors
  obtain ⟨hUp, hUpParents, hUpChildren⟩ := updateAncestorsOf_spec hIt true setAncestors
  simp only [if_true, hShare] at hUp hUpChildren
  generalize hAncestors : linked.updateAncestorsOf true entry.tx.hash setAncestors = updated
    at hUp hUpParents hUpChildren
  have hSum : ∑ a ∈ setAncestors, updated.own a = ∑ a ∈ setAncestors, pool.own a := by
    refine sum_congr rfl fun a ha => ?_
    rw [hUp.own, hSame.shifted.own, hOwn a ha]
  have hUpdatedSub : setAncestors ⊆ updated.hashes := by
    intro a ha
    rw [hUp.hashes, hSame.shifted.hashes, hHashes]
    exact .inr (hSub ha)
  have hEnd := updateEntryForAncestors_spec hUpdatedSub
    (by rw [hSum]; exact hLinked.cost_sum hSub) entry.tx.hash
  rw [hSum] at hEnd
  have hWhole : pool.addUnchecked entry setAncestors =
      updated.updateEntryForAncestors entry.tx.hash setAncestors := by
    unfold addUnchecked
    dsimp only
    rw [hLink, hAncestors]
  have hLinks : (pool.addUnchecked entry setAncestors).mapLinks = updated.mapLinks := by
    rw [hWhole]
    rfl
  have hAll := (hSame.shifted.trans hUp).trans hEnd
  rw [← hWhole] at hAll
  have hNoParent : ∀ p, pool.Parent p entry.tx.hash → False := fun p hp =>
    hNew (hLinked.within p entry.tx.hash hp).2
  refine ⟨fun h => ?_, fun p h => ?_, fun h c => ?_, fun o => ?_, ?_⟩
  · rw [hAll.entry, hEnter]
    by_cases hEq : entry.tx.hash = h
    · subst hEq
      have hNot : entry.tx.hash ∉ setAncestors := fun hIn => hNew (hSub hIn)
      simp [hNot]
    · simp [hEq, Ne.symm hEq]
  · unfold Parent
    rw [parents_congr hLinks, hUpParents]
    refine (hParents p h).trans ?_
    unfold Parent
    rw [enterEntry_parents]
  · rw [children_congr hLinks, hUpChildren, hChildren, enterEntry_children]
    refine or_congr_right ?_
    rw [and_comm, hParents h entry.tx.hash]
    unfold Parent
    rw [enterEntry_parents]
    exact and_congr_right fun _ => ⟨fun hp => (hp.resolve_left (hNoParent h)).2,
      fun hp => .inr ⟨rfl, hp⟩⟩
  · rw [hAll.nextTx, enterEntry_mapNextTx]
  · rw [hAll.deltas, enterEntry_mapDeltas]

/-- What an entry is when it is added. -/
structure NewEntry (pool : CTxMemPool) (entry : CTxMemPoolEntry) : Prop where
  fresh : entry.tx.hash ∉ pool.hashes
  /-- No transaction spends its own output. -/
  self : ∀ i ∈ entry.tx.vin, i.prevout.hash ≠ entry.tx.hash
  ancestorState : entry.ancestorState = entry.own
  descendantState : entry.descendantState = entry.share
  feeDelta : entry.feeDelta = 0
  cost : 0 ≤ entry.sigOpCost
  costs : entry.sigOpCost + ∑ h ∈ pool.hashes, (pool.own h).2 < 2 ^ 31

section Adding

variable {pool' : CTxMemPool} {entry : CTxMemPoolEntry}
  (hLinked : pool.Linked) (hNew : pool.NewEntry entry)
  (hAdded : Added pool pool' entry (pool.ancestorsOf entry true))

include hAdded

theorem Added.hashes : pool'.hashes = insert entry.tx.hash pool.hashes := by
  ext h
  rw [mem_insert, mem_hashes, hAdded.entries, mem_hashes]
  by_cases hEq : entry.tx.hash = h
  · simp [hEq]
  · simp [hEq, Ne.symm hEq]

theorem Added.own_new : pool'.own entry.tx.hash = (pool.withDelta entry).own := by
  unfold CTxMemPool.own
  rw [hAdded.entries, if_pos rfl]
  rfl

include hNew

theorem Added.own_old {h : UInt256} (hIn : h ∈ pool.hashes) : pool'.own h = pool.own h := by
  have hNe : entry.tx.hash ≠ h := fun hEq => hNew.fresh (hEq ▸ hIn)
  unfold CTxMemPool.own
  rw [hAdded.entries, if_neg hNe]
  cases pool.mapTx[h]? <;> rfl

theorem Added.share_old {h : UInt256} (hIn : h ∈ pool.hashes) : pool'.share h = pool.share h := by
  rw [share_eq, share_eq, hAdded.own_old hNew hIn]

include hLinked

/-- The ancestors of the new entry are those that were calculated; no others are new. -/
theorem Added.ancestor (a h : UInt256) : pool'.Ancestor a h ↔
    pool.Ancestor a h ∨ (h = entry.tx.hash ∧ a ∈ pool.ancestorsOf entry true) := by
  have hApart : ∀ b, ¬ pool.Parent entry.tx.hash b := fun b hb =>
    hNew.fresh (hLinked.within _ b hb).1
  have hNotPred : ¬ entry.tx.hash ∈ pool.inPoolParents entry.tx := fun hIn =>
    hNew.fresh (mem_inPoolParents.mp hIn).1
  unfold Ancestor
  rw [transGen_addSink hApart hNotPred hAdded.parents, mem_ancestorsOf_search hLinked]
  refine or_congr_right (and_congr_right fun _ => exists_congr fun p => and_congr_right fun _ => ?_)
  rw [reflTransGen_iff_eq_or_transGen, eq_comm]
  rfl

/-- **The links stay consistent.** -/
theorem Added.linked : pool'.Linked := by
  have hHashes := hAdded.hashes
  have hAncestor := hAdded.ancestor hLinked hNew
  refine ⟨fun h e hEntry => ?_, fun a b => ?_, fun a b hab => ?_, fun h hCycle => ?_,
    fun h e hEntry => ?_, ?_⟩
  · rw [hAdded.entries] at hEntry
    split at hEntry
    case isTrue hEq =>
      rw [← some.inj hEntry]
      simpa using hEq
    case isFalse =>
      obtain ⟨old, hOld, rfl⟩ := map_eq_some_iff.mp hEntry
      exact hLinked.hash h old hOld
  · rw [hAdded.children, hAdded.parents, hLinked.both]
  · rw [hHashes]
    rcases (hAdded.parents a b).mp hab with hOld | ⟨rfl, hIn⟩
    · obtain ⟨ha, hb⟩ := hLinked.within a b hOld
      exact ⟨mem_insert_of_mem ha, mem_insert_of_mem hb⟩
    · exact ⟨mem_insert_of_mem (mem_inPoolParents.mp hIn).1, mem_insert_self _ _⟩
  · rcases (hAncestor h h).mp hCycle with hOld | ⟨rfl, hIn⟩
    · exact hLinked.acyclic h hOld
    · exact hNew.fresh (ancestorsOf_subset hLinked entry hIn)
  · rw [hAdded.entries] at hEntry
    split at hEntry
    case isTrue =>
      rw [← some.inj hEntry]
      simpa using hNew.cost
    case isFalse =>
      obtain ⟨old, hOld, rfl⟩ := map_eq_some_iff.mp hEntry
      exact hLinked.cost h old hOld
  · rw [hHashes, sum_insert hNew.fresh, hAdded.own_new,
      sum_congr rfl fun h hIn => by rw [hAdded.own_old hNew hIn]]
    simpa [CTxMemPoolEntry.own] using hNew.costs

/-- **The sums after an addition** are right again. -/
theorem Added.summed (hSummed : pool.Summed pool.Ancestor) : pool'.Summed pool'.Ancestor := by
  have hHashes := hAdded.hashes
  have hAncestor := hAdded.ancestor hLinked hNew
  have hFresh := hNew.fresh
  -- the new entry has no descendants
  have hSink : ∀ d, ¬ pool'.Ancestor entry.tx.hash d := by
    intro d hd
    rcases (hAncestor _ d).mp hd with hOld | ⟨-, hIn⟩
    · exact hFresh (hLinked.ancestor_within hOld).1
    · exact hFresh (ancestorsOf_subset hLinked entry hIn)
  have hNewAbove : ∀ a, pool'.Ancestor a entry.tx.hash ↔ a ∈ pool.ancestorsOf entry true := by
    intro a
    rw [hAncestor]
    constructor
    · rintro (hOld | ⟨-, hIn⟩)
      · exact absurd (hLinked.ancestor_within hOld).2 hFresh
      · exact hIn
    · exact fun hIn => .inr ⟨rfl, hIn⟩
  obtain ⟨hAncState, hDescState⟩ :=
    @withDelta_states pool entry hNew.ancestorState hNew.descendantState
  constructor
  · intro h e hEntry
    rw [hAdded.entries] at hEntry
    split at hEntry
    case isTrue hEq =>
      subst hEq
      rw [← some.inj hEntry, CTxMemPoolEntry.ancestorState_shift,
        sumOver_eq (s := pool.ancestorsOf entry true)]
      · congr 1
        exact sum_congr rfl fun a ha =>
          (hAdded.own_old hNew (ancestorsOf_subset hLinked entry ha)).symm
      · intro a
        rw [hNewAbove, hHashes, mem_insert]
        exact ⟨fun ha => ⟨.inr (ancestorsOf_subset hLinked entry ha), ha⟩, And.right⟩
    case isFalse hNe =>
      obtain ⟨old, hOld, rfl⟩ := map_eq_some_iff.mp hEntry
      rw [CTxMemPoolEntry.ancestorState_shift, add_zero, hSummed.ancestors h old hOld]
      congr 1
      refine sumOver_congr (fun a => ?_) fun a ha _ => (hAdded.own_old hNew ha).symm
      rw [hAncestor, hHashes, mem_insert]
      constructor
      · exact fun ⟨hIn, hAbove⟩ => ⟨.inr hIn, .inl hAbove⟩
      · rintro ⟨-, hAbove | ⟨hEq, -⟩⟩
        · exact ⟨(hLinked.ancestor_within hAbove).1, hAbove⟩
        · exact absurd hEq.symm hNe
  · intro h e hEntry
    rw [hAdded.entries] at hEntry
    split at hEntry
    case isTrue hEq =>
      subst hEq
      rw [← some.inj hEntry, CTxMemPoolEntry.descendantState_shift, hDescState, sumOver_eq (s := ∅)]
      · simp
      · simp [hSink]
    case isFalse hNe =>
      obtain ⟨old, hOld, rfl⟩ := map_eq_some_iff.mp hEntry
      classical
      rw [CTxMemPoolEntry.descendantState_shift, hSummed.descendants h old hOld,
        CTxMemPoolEntry.share_shift, hHashes, sumOver_insert hFresh, add_assoc, add_comm (sumOver _ _ _)]
      congr 2
      · have hShare : pool'.share entry.tx.hash = (pool.withDelta entry).share := by
          rw [share_eq, hAdded.own_new]
          rfl
        rw [hShare, if_congr (hNewAbove h) rfl rfl]
      · refine sumOver_congr (fun d => and_congr_right fun hd => ?_) fun d hd _ =>
          (hAdded.share_old hNew hd).symm
        rw [hAncestor]
        constructor
        · exact .inl
        · rintro (hBelow | ⟨rfl, -⟩)
          · exact hBelow
          · exact absurd hd hFresh

end Adding

end CTxMemPool

end Electrum
