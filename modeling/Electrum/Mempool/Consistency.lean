import Electrum.Mempool.Adding

/-!
# Consistent pools

A pool is consistent when its links are the spending relation between its entries, and the sums of
every entry are those over the ancestors and descendants by this relation.

Main results:
* `Consistent.exact` — what that says of a consistent pool
* `Consistent.add` — a new transaction that conflicts with none and has no children keeps it so
-/

namespace Electrum

open CTxMemPoolEntry Option Relation

namespace CTxMemPool

variable {pool : CTxMemPool}

/-- **The spending relation** of the pool: both are entries, and the second has an input from the
first. -/
def SpendsFrom (pool : CTxMemPool) (a b : UInt256) : Prop :=
  a ∈ pool.hashes ∧ ∃ e, pool.mapTx[b]? = some e ∧ ∃ i ∈ e.tx.vin, i.prevout.hash = a

/-- **Links and sums are exact**: the links are the spending relation, and the sums are over the
entries that it relates an entry to, directly or not, beside the entry itself. -/
structure PackagesExact (pool : CTxMemPool) : Prop where
  parents : ∀ a b, a ∈ pool.getMemPoolParents b ↔ pool.SpendsFrom a b
  children : ∀ a b, b ∈ pool.getMemPoolChildren a ↔ pool.SpendsFrom a b
  sums : pool.Summed (TransGen pool.SpendsFrom)

/-- `mapNextTx` has the spender of every output that an entry spends. -/
def NextTxExact (pool : CTxMemPool) : Prop :=
  ∀ (o : UInt256 × Nat) (t : CTransaction), pool.mapNextTx[o]? = some t ↔
    (∃ e, pool.mapTx[t.hash]? = some e ∧ e.tx = t) ∧ ∃ i ∈ t.vin, i.prevout.key = o

/-- **A consistent pool.** -/
structure Consistent (pool : CTxMemPool) : Prop where
  linked : pool.Linked
  spends : ∀ a b, pool.Parent a b ↔ pool.SpendsFrom a b
  summed : pool.Summed pool.Ancestor
  nextTx : pool.NextTxExact
  feeDelta : ∀ (h : UInt256) (e : CTxMemPoolEntry), pool.mapTx[h]? = some e →
    e.feeDelta = (pool.mapDeltas[h]?).getD 0

theorem Consistent.parent_eq (h : pool.Consistent) : pool.Parent = pool.SpendsFrom := by
  funext a b
  exact propext (h.spends a b)

theorem Consistent.exact (h : pool.Consistent) : pool.PackagesExact where
  parents := h.spends
  children := fun a b => (h.linked.both a b).trans (h.spends a b)
  sums := by
    have hSummed := h.summed
    unfold Ancestor at hSummed
    rwa [h.parent_eq] at hSummed

variable {pool' : CTxMemPool}

/-- The spending relation is about the transactions only. -/
theorem spendsFrom_congr (hTx : ∀ k : UInt256, (pool'.mapTx[k]?).map tx = (pool.mapTx[k]?).map tx) :
    pool'.hashes = pool.hashes ∧ pool'.SpendsFrom = pool.SpendsFrom := by
  have hHashes : pool'.hashes = pool.hashes := by
    ext k
    rw [mem_hashes, mem_hashes, ← isSome_map (f := tx), hTx, isSome_map]
  refine ⟨hHashes, ?_⟩
  have hOf : ∀ pool : CTxMemPool, ∀ a b, pool.SpendsFrom a b ↔ a ∈ pool.hashes ∧
      ∃ t, (pool.mapTx[b]?).map tx = some t ∧ ∃ i ∈ t.vin, i.prevout.hash = a := by
    intro pool a b
    unfold SpendsFrom
    cases pool.mapTx[b]? <;> simp
  funext a b
  exact propext (by rw [hOf, hOf, hHashes, hTx])

variable {da : UInt256 → (Int × Int × Int) × Int} {dd : UInt256 → Int × Int × Int} {a b : UInt256}

/-- Moved sums leave the spending relation as it is. -/
theorem Shifted.spendsFrom (h : Shifted pool pool' da dd) : pool'.SpendsFrom = pool.SpendsFrom := by
  refine (spendsFrom_congr fun k => ?_).2
  rw [h.entry]
  cases pool.mapTx[k]? <;> rfl

theorem Shifted.nextTxExact (h : Shifted pool pool' da dd) (hNext : pool.NextTxExact) :
    pool'.NextTxExact := by
  intro o t
  have hTx : (∃ e, pool'.mapTx[t.hash]? = some e ∧ e.tx = t) ↔
      ∃ e, pool.mapTx[t.hash]? = some e ∧ e.tx = t := by
    rw [h.entry]
    cases pool.mapTx[t.hash]? <;> simp
  rw [h.nextTx, hTx]
  exact hNext o t

theorem spendsFrom_within (h : pool.SpendsFrom a b) : a ∈ pool.hashes ∧ b ∈ pool.hashes := by
  obtain ⟨ha, e, he, -⟩ := h
  exact ⟨ha, mem_hashes_of_some he⟩

theorem spendsPath_within (h : TransGen pool.SpendsFrom a b) : a ∈ pool.hashes ∧ b ∈ pool.hashes :=
  transGen_within (R := pool.SpendsFrom) (fun _ _ hab => spendsFrom_within hab) h

/-- The empty pool. -/
theorem consistent_empty : ({} : CTxMemPool).Consistent := by
  have hNone : ∀ h : UInt256, ({} : CTxMemPool).mapTx[h]? = none := fun h =>
    Std.ExtTreeMap.getElem?_empty
  have hParent : ∀ a b, ¬ ({} : CTxMemPool).Parent a b := by
    intro a b
    exact Finset.notMem_empty a
  have hHashes : ({} : CTxMemPool).hashes = ∅ := by
    rw [Finset.eq_empty_iff_forall_notMem]
    intro h
    rw [mem_hashes]
    exact Bool.false_ne_true
  refine ⟨⟨?_, ?_, ?_, ?_, ?_, ?_⟩, ?_, ⟨?_, ?_⟩, ?_, ?_⟩
  · intro h e hEntry
    cases hEntry
  · intro a b
    refine iff_of_false ?_ (hParent a b)
    exact Finset.notMem_empty b
  · exact fun a b hab => absurd hab (hParent a b)
  · intro h hCycle
    obtain ⟨b, hb, -⟩ := TransGen.head'_iff.mp hCycle
    exact hParent h b hb
  · intro h e hEntry
    cases hEntry
  · decide
  · intro a b
    refine iff_of_false (hParent a b) ?_
    rintro ⟨-, e, hEntry, -⟩
    cases hEntry
  · intro h e hEntry
    cases hEntry
  · intro h e hEntry
    cases hEntry
  · intro o t
    refine iff_of_false (fun h => (by cases h)) ?_
    rintro ⟨⟨e, hEntry, -⟩, -⟩
    cases hEntry
  · intro h e hEntry
    cases hEntry

/-! ## Adding -/

/-- No entry spends an output that the transaction spends. -/
def NoConflict (pool : CTxMemPool) (tx : CTransaction) : Prop :=
  ∀ i ∈ tx.vin, pool.mapNextTx[i.prevout.key]? = none

/-- No entry spends an output of the transaction. -/
def NoChildren (pool : CTxMemPool) (tx : CTransaction) : Prop :=
  ∀ (o : UInt256 × Nat) (t : CTransaction), pool.mapNextTx[o]? = some t → o.1 ≠ tx.hash

section Adding

variable {pool' : CTxMemPool} {entry : CTxMemPoolEntry} {setAncestors : Finset UInt256}

/-- The transactions of the entries. -/
theorem Added.tx_iff (hAdded : Added pool pool' entry setAncestors)
    (hFresh : entry.tx.hash ∉ pool.hashes) (h : UInt256) (t : CTransaction) :
    (∃ e, pool'.mapTx[h]? = some e ∧ e.tx = t) ↔
      (∃ e, pool.mapTx[h]? = some e ∧ e.tx = t) ∨ (h = entry.tx.hash ∧ t = entry.tx) := by
  rw [hAdded.entries]
  by_cases hEq : entry.tx.hash = h
  · subst hEq
    have hNone : pool.mapTx[entry.tx.hash]? = none := by
      rwa [mem_hashes, not_isSome_iff_eq_none] at hFresh
    simp [hNone, eq_comm]
  · rw [if_neg hEq]
    cases pool.mapTx[h]? <;> simp [Ne.symm hEq]

/-- Without conflicts every output that is spent has one spender. -/
theorem Added.nextTxExact (hAdded : Added pool pool' entry setAncestors)
    (hFresh : entry.tx.hash ∉ pool.hashes) (hNext : pool.NextTxExact)
    (hNoConflict : pool.NoConflict entry.tx) : pool'.NextTxExact := by
  intro o t
  rw [hAdded.nextTx, hAdded.tx_iff hFresh]
  cases hOld : pool.mapNextTx[o]? with
  | some t' =>
    -- an output that was spent is not spent by the new one
    obtain ⟨hThere, hInput⟩ := (hNext o t').mp hOld
    have hNotNew : ∀ i ∈ entry.tx.vin, i.prevout.key ≠ o := by
      rintro i hi rfl
      rw [hNoConflict i hi] at hOld
      cases hOld
    constructor
    · intro hEq
      have hEq : t' = t := by simpa using hEq
      subst hEq
      exact ⟨.inl hThere, hInput⟩
    · rintro ⟨hThere | ⟨-, rfl⟩, i, hi, hKey⟩
      · have hSame := (hNext o t).mpr ⟨hThere, i, hi, hKey⟩
        rw [hOld] at hSame
        simpa using hSame
      · exact absurd hKey (hNotNew i hi)
  | none =>
    rw [none_or]
    constructor
    · intro hSome
      split at hSome
      case isTrue hIn =>
        obtain ⟨i, hi, hKey⟩ := List.mem_map.mp hIn
        rw [← some.inj hSome]
        exact ⟨.inr ⟨rfl, rfl⟩, i, hi, hKey⟩
      case isFalse => cases hSome
    · rintro ⟨hThere | ⟨-, rfl⟩, i, hi, hKey⟩
      · rw [(hNext o t).mpr ⟨hThere, i, hi, hKey⟩] at hOld
        cases hOld
      · rw [if_pos (List.mem_map.mpr ⟨i, hi, hKey⟩)]

theorem Added.feeDelta (hAdded : Added pool pool' entry setAncestors) (hZero : entry.feeDelta = 0)
    (hDelta : ∀ (h : UInt256) (e : CTxMemPoolEntry), pool.mapTx[h]? = some e →
      e.feeDelta = (pool.mapDeltas[h]?).getD 0) (h : UInt256) (e : CTxMemPoolEntry)
    (hEntry : pool'.mapTx[h]? = some e) : e.feeDelta = (pool'.mapDeltas[h]?).getD 0 := by
  rw [hAdded.entries] at hEntry
  rw [hAdded.deltas]
  split at hEntry
  case isTrue hEq =>
    subst hEq
    rw [← some.inj hEntry, feeDelta_shift, withDelta_feeDelta hZero]
  case isFalse =>
    obtain ⟨old, hOld, rfl⟩ := map_eq_some_iff.mp hEntry
    exact hDelta h old hOld

/-- What the entries spend from each other, when the new one may have children. -/
theorem Added.spendsFrom (hAdded : Added pool pool' entry setAncestors)
    (hFresh : entry.tx.hash ∉ pool.hashes)
    (hSelf : ∀ i ∈ entry.tx.vin, i.prevout.hash ≠ entry.tx.hash) (a b : UInt256) :
    pool'.SpendsFrom a b ↔ pool.SpendsFrom a b ∨
      (b = entry.tx.hash ∧ a ∈ pool.inPoolParents entry.tx) ∨
      (a = entry.tx.hash ∧ ∃ e, pool.mapTx[b]? = some e ∧ ∃ i ∈ e.tx.vin, i.prevout.hash = a) := by
  have hHashes : a ∈ pool'.hashes ↔ a = entry.tx.hash ∨ a ∈ pool.hashes := by
    rw [mem_hashes, hAdded.entries, mem_hashes]
    by_cases hEq : entry.tx.hash = a
    · simp [hEq]
    · simp [hEq, Ne.symm hEq]
  have hInputs : (∃ e, pool'.mapTx[b]? = some e ∧ ∃ i ∈ e.tx.vin, i.prevout.hash = a) ↔
      (∃ e, pool.mapTx[b]? = some e ∧ ∃ i ∈ e.tx.vin, i.prevout.hash = a) ∨
        (b = entry.tx.hash ∧ ∃ i ∈ entry.tx.vin, i.prevout.hash = a) := by
    constructor
    · rintro ⟨e, hEntry, hInput⟩
      rcases (hAdded.tx_iff hFresh b e.tx).mp ⟨e, hEntry, rfl⟩ with ⟨old, hOld, hTx⟩ | ⟨hEq, hTx⟩
      · exact .inl ⟨old, hOld, hTx ▸ hInput⟩
      · exact .inr ⟨hEq, hTx ▸ hInput⟩
    · rintro (⟨e, hEntry, hInput⟩ | ⟨rfl, hInput⟩)
      · obtain ⟨e', hEntry', hTx⟩ := (hAdded.tx_iff hFresh b e.tx).mpr (.inl ⟨e, hEntry, rfl⟩)
        exact ⟨e', hEntry', hTx ▸ hInput⟩
      · obtain ⟨e', hEntry', hTx⟩ :=
          (hAdded.tx_iff hFresh entry.tx.hash entry.tx).mpr (.inr ⟨rfl, rfl⟩)
        exact ⟨e', hEntry', hTx ▸ hInput⟩
  unfold SpendsFrom
  rw [hHashes, hInputs, mem_inPoolParents]
  constructor
  · rintro ⟨rfl | hIn, hOld | ⟨hEq, i, hi, hHash⟩⟩
    · exact .inr (.inr ⟨rfl, hOld⟩)
    · exact absurd hHash (hSelf i hi)
    · exact .inl ⟨hIn, hOld⟩
    · exact .inr (.inl ⟨hEq, hIn, i, hi, hHash⟩)
  · rintro (⟨hIn, hOld⟩ | ⟨hEq, hIn, hInput⟩ | ⟨rfl, hOld⟩)
    · exact ⟨.inr hIn, .inl hOld⟩
    · exact ⟨.inr hIn, .inr ⟨hEq, hInput⟩⟩
    · exact ⟨.inl rfl, .inl hOld⟩

end Adding

/-- **Adding** a new transaction that conflicts with none and has no children. -/
theorem Consistent.add (h : pool.Consistent) {entry : CTxMemPoolEntry}
    (hNew : pool.NewEntry entry) (hNoConflict : pool.NoConflict entry.tx)
    (hNoChildren : pool.NoChildren entry.tx) : (pool.add entry).Consistent := by
  have hAdded : Added pool (pool.add entry) entry (pool.ancestorsOf entry true) :=
    addUnchecked_added h.linked hNew.fresh hNew.self (ancestorsOf_subset h.linked entry)
  refine ⟨hAdded.linked h.linked hNew, fun a b => ?_, hAdded.summed h.linked hNew h.summed,
    hAdded.nextTxExact hNew.fresh h.nextTx hNoConflict, hAdded.feeDelta hNew.feeDelta h.feeDelta⟩
  rw [hAdded.parents, hAdded.spendsFrom hNew.fresh hNew.self, h.spends]
  refine or_congr_right (or_iff_left ?_).symm
  rintro ⟨rfl, e, hEntry, i, hi, hHash⟩
  have hThere : ∃ e', pool.mapTx[e.tx.hash]? = some e' ∧ e'.tx = e.tx := by
    rw [h.linked.hash b e hEntry]
    exact ⟨e, hEntry, rfl⟩
  exact hNoChildren i.prevout.key e.tx ((h.nextTx _ _).mpr ⟨hThere, i, hi, rfl⟩) hHash

end CTxMemPool

end Electrum
