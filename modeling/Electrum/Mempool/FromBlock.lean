import Electrum.Mempool.Removing

/-!
# Transactions of a disconnected block

When a block is disconnected its transactions come back into the pool, where transactions that
spend from them may be.  `addUnchecked` does not look for children, so their links and their part in
the sums are missing until `UpdateTransactionsFromBlock` goes over the transactions of the block,
last first, with a cache of the descendants found so far.

Main results:
* `Reentered.addAll` — before the call exactly the links from the block's transactions to the others
  are missing
* `Relinked.step`, `Relinked.run` — one turn and all turns
* `Consistent.resurrect` — the pool is consistent again when no transaction of the block has a parent
  in the pool outside the block
-/

namespace Electrum

open CTxMemPoolEntry Finset Relation

namespace CTxMemPool

variable {pool : CTxMemPool}

/-- The transactions of a block, added in turn. -/
def addAll (pool : CTxMemPool) (entries : List CTxMemPoolEntry) : CTxMemPool :=
  entries.foldl add pool

/-- The transactions of a disconnected block back in the pool. -/
def resurrect (pool : CTxMemPool) (entries : List CTxMemPoolEntry) : CTxMemPool :=
  (pool.addAll entries).updateTransactionsFromBlock (entries.map (·.tx.hash))

/-! ## Adding, with children in the pool -/

/-- **After the additions**: the links are the spending relation, except from a transaction of the
block to one outside; nothing is linked or spends the other way. -/
structure Reentered (pool : CTxMemPool) (batch : Finset UInt256) : Prop where
  linked : pool.Linked
  summed : pool.Summed pool.Ancestor
  nextTx : pool.NextTxExact
  feeDelta : ∀ (h : UInt256) (e : CTxMemPoolEntry), pool.mapTx[h]? = some e →
    e.feeDelta = (pool.mapDeltas[h]?).getD 0
  entries : batch ⊆ pool.hashes
  parents : ∀ a b, pool.Parent a b ↔ pool.SpendsFrom a b ∧ ¬ (a ∈ batch ∧ b ∉ batch)
  outside : ∀ a b, pool.SpendsFrom a b → b ∈ batch → a ∈ batch

theorem Consistent.reentered (h : pool.Consistent) : Reentered pool ∅ where
  linked := h.linked
  summed := h.summed
  nextTx := h.nextTx
  feeDelta := h.feeDelta
  entries := empty_subset _
  parents := fun a b => by simp [h.spends]
  outside := fun _ b _ hb => absurd hb (notMem_empty b)

variable {batch : Finset UInt256} {entries : List CTxMemPoolEntry} {t : UInt256}

/-- One transaction of the block comes back; what it spends is outside the pool or back already. -/
theorem Reentered.add (h : Reentered pool batch)
    {entry : CTxMemPoolEntry} (hNew : pool.NewEntry entry) (hNoConflict : pool.NoConflict entry.tx)
    (hOutside : ∀ i ∈ entry.tx.vin, i.prevout.hash ∈ pool.hashes → i.prevout.hash ∈ batch)
    (hFirst : ∀ b ∈ batch, ∀ e, pool.mapTx[b]? = some e →
      ∀ i ∈ e.tx.vin, i.prevout.hash ≠ entry.tx.hash) :
    Reentered (pool.add entry) (insert entry.tx.hash batch) := by
  have hAdded : Added pool (pool.add entry) entry (pool.ancestorsOf entry true) :=
    addUnchecked_added h.linked hNew.fresh hNew.self (ancestorsOf_subset h.linked entry)
  have hHashes := hAdded.hashes
  have hSpends := hAdded.spendsFrom hNew.fresh hNew.self
  have hInputs : ∀ a ∈ pool.inPoolParents entry.tx, a ∈ batch := by
    intro a ha
    obtain ⟨hIn, i, hi, rfl⟩ := mem_inPoolParents.mp ha
    exact hOutside i hi hIn
  have hOld : ∀ a, a ∈ pool.hashes → (a ∈ insert entry.tx.hash batch ↔ a ∈ batch) := by
    intro a ha
    rw [mem_insert, or_iff_right]
    rintro rfl
    exact hNew.fresh ha
  refine ⟨hAdded.linked h.linked hNew, hAdded.summed h.linked hNew h.summed,
    hAdded.nextTxExact hNew.fresh h.nextTx hNoConflict, hAdded.feeDelta hNew.feeDelta h.feeDelta,
    ?_, fun a b => ?_, fun a b hab hb => ?_⟩
  · rw [hHashes]
    exact insert_subset_insert _ h.entries
  · rw [hAdded.parents, hSpends, h.parents]
    constructor
    · rintro (⟨hab, hNot⟩ | ⟨rfl, ha⟩)
      · refine ⟨.inl hab, ?_⟩
        rwa [hOld a (spendsFrom_within hab).1, hOld b (spendsFrom_within hab).2]
      · exact ⟨.inr (.inl ⟨rfl, ha⟩), fun hCross => hCross.2 (mem_insert_self _ _)⟩
    · rintro ⟨hab | ⟨rfl, ha⟩ | ⟨rfl, e, he, i, hi, hEq⟩, hNot⟩
      · rw [hOld a (spendsFrom_within hab).1, hOld b (spendsFrom_within hab).2] at hNot
        exact .inl ⟨hab, hNot⟩
      · exact .inr ⟨rfl, ha⟩
      · -- a child that was there: one of the block would come before its parent
        exfalso
        refine hNot ⟨mem_insert_self _ _, fun hb => ?_⟩
        rw [hOld b (mem_hashes_of_some he)] at hb
        exact hFirst b hb e he i hi hEq
  · rcases (hSpends a b).mp hab with hab | ⟨rfl, ha⟩ | ⟨rfl, -⟩
    · rw [hOld b (spendsFrom_within hab).2] at hb
      exact mem_insert_of_mem (h.outside a b hab hb)
    · exact mem_insert_of_mem (hInputs a ha)
    · exact mem_insert_self _ _

/-- Every transaction is new and conflicts with none when its turn comes. -/
def AddedInTurn : CTxMemPool → List CTxMemPoolEntry → Prop
  | _, [] => True
  | pool, entry :: entries =>
    pool.NewEntry entry ∧ pool.NoConflict entry.tx ∧ AddedInTurn (pool.add entry) entries

/-- **What may come back**: new transactions, parents first, that spend from none of the pool. -/
structure Resurrectable (pool : CTxMemPool) (entries : List CTxMemPoolEntry) : Prop where
  inTurn : pool.AddedInTurn entries
  parentsFirst : entries.Pairwise fun e e' => ∀ i ∈ e.tx.vin, i.prevout.hash ≠ e'.tx.hash
  outside : ∀ e ∈ entries, ∀ i ∈ e.tx.vin, i.prevout.hash ∉ pool.hashes

/-- All transactions of the block, parents first. -/
theorem Reentered.addAll (h : Reentered pool batch) (hInTurn : pool.AddedInTurn entries)
    (hFirst : entries.Pairwise fun e e' => ∀ i ∈ e.tx.vin, i.prevout.hash ≠ e'.tx.hash)
    (hOutside : ∀ e ∈ entries, ∀ i ∈ e.tx.vin, i.prevout.hash ∈ pool.hashes →
      i.prevout.hash ∈ batch)
    (hBefore : ∀ e ∈ entries, ∀ b ∈ batch, ∀ e', pool.mapTx[b]? = some e' →
      ∀ i ∈ e'.tx.vin, i.prevout.hash ≠ e.tx.hash) :
    Reentered (pool.addAll entries) (batch ∪ (entries.map (·.tx.hash)).toFinset) := by
  induction entries generalizing pool batch with
  | nil =>
    rw [List.map_nil, List.toFinset_nil, union_empty]
    exact h
  | cons entry entries ih =>
    obtain ⟨hNew, hNoConflict, hRest⟩ := hInTurn
    obtain ⟨hHead, hTail⟩ := List.pairwise_cons.mp hFirst
    have hAdded : Added pool (pool.add entry) entry (pool.ancestorsOf entry true) :=
      addUnchecked_added h.linked hNew.fresh hNew.self (ancestorsOf_subset h.linked entry)
    have hNext := h.add hNew hNoConflict (hOutside entry List.mem_cons_self)
      (hBefore entry List.mem_cons_self)
    -- the conditions on the rest still hold with the new entry in the pool
    have hEnd := ih hNext hRest hTail
      (fun e he i hi hIn => by
        rw [hAdded.hashes, mem_insert] at hIn
        rcases hIn with hEq | hIn
        · exact mem_insert.mpr (.inl hEq)
        · exact mem_insert_of_mem (hOutside e (List.mem_cons_of_mem entry he) i hi hIn))
      (fun e he b hb e' he' => by
        rcases (hAdded.tx_iff hNew.fresh b e'.tx).mp ⟨e', he', rfl⟩ with
          ⟨old, hOld, hTx⟩ | ⟨rfl, hTx⟩
        · have hIn : b ∈ batch := by
            rcases mem_insert.mp hb with rfl | hIn
            · exact absurd (mem_hashes_of_some hOld) hNew.fresh
            · exact hIn
          rw [← hTx]
          exact hBefore e (List.mem_cons_of_mem entry he) b hIn old hOld
        · rw [hTx]
          exact hHead e he)
    rw [List.map_cons, List.toFinset_cons, union_insert, ← insert_union]
    exact hEnd

/-! ## The links to the children -/

/-- `mapNextTx` tells the children. -/
theorem mem_spenders (hHash : ∀ (h : UInt256) (e : CTxMemPoolEntry), pool.mapTx[h]? = some e →
    e.tx.hash = h) (hNext : pool.NextTxExact)
    (ht : t ∈ pool.hashes) (c : UInt256) : c ∈ pool.spenders t ↔ pool.SpendsFrom t c := by
  unfold spenders
  simp only [List.mem_map, List.mem_filter, beq_iff_eq, Prod.exists]
  constructor
  · rintro ⟨o, n, tx, ⟨hIn, rfl⟩, rfl⟩
    rw [Std.ExtTreeMap.mem_toList_iff_getElem?_eq_some] at hIn
    obtain ⟨⟨e, he, hTx⟩, i, hi, hKey⟩ := (hNext _ _).mp hIn
    exact ⟨ht, e, he, i, hTx ▸ hi, congrArg Prod.fst hKey⟩
  · rintro ⟨-, e, he, i, hi, hEq⟩
    have hSelf := hHash c e he
    have hIn := (hNext i.prevout.key e.tx).mpr ⟨⟨e, hSelf.symm ▸ he, rfl⟩, i, hi, rfl⟩
    exact ⟨i.prevout.hash, i.prevout.n, e.tx,
      ⟨Std.ExtTreeMap.mem_toList_iff_getElem?_eq_some.mpr hIn, hEq⟩, hSelf⟩

/-- **More links**, the same in both directions, and no other change. -/
structure LinksPlus (pool pool' : CTxMemPool) (extra : UInt256 → UInt256 → Prop) : Prop where
  same : SameBut pool pool'
  parents : ∀ a b, pool'.Parent a b ↔ pool.Parent a b ∨ extra a b
  children : ∀ a b, b ∈ pool'.getMemPoolChildren a ↔ b ∈ pool.getMemPoolChildren a ∨ extra a b

namespace LinksPlus

variable {pool' pool'' : CTxMemPool} {x y : UInt256 → UInt256 → Prop}

theorem trans (h : LinksPlus pool pool' x) (h' : LinksPlus pool' pool'' y) :
    LinksPlus pool pool'' fun a b => x a b ∨ y a b where
  same := h.same.trans h'.same
  parents := fun a b => by rw [h'.parents, h.parents, or_assoc]
  children := fun a b => by rw [h'.children, h.children, or_assoc]

/-- A link that is there already is not another one. -/
theorem absorb (h : LinksPlus pool pool' x) (hxy : ∀ a b, x a b → y a b)
    (hyx : ∀ a b, y a b → x a b ∨ (pool.Parent a b ∧ b ∈ pool.getMemPoolChildren a)) :
    LinksPlus pool pool' y where
  same := h.same
  parents := fun a b => by
    rw [h.parents]
    refine ⟨Or.imp_right (hxy a b), ?_⟩
    rintro (hOld | hy)
    · exact .inl hOld
    · exact (hyx a b hy).symm.imp_left And.left
  children := fun a b => by
    rw [h.children]
    refine ⟨Or.imp_right (hxy a b), ?_⟩
    rintro (hOld | hy)
    · exact .inl hOld
    · exact (hyx a b hy).symm.imp_left And.right

/-- One link. -/
theorem one (pool : CTxMemPool) (t c : UInt256) :
    LinksPlus pool ((pool.updateChild t c true).updateParent c t true) fun a b => a = t ∧ b = c where
  same := ⟨rfl, rfl, rfl⟩
  parents := fun a b => by
    unfold Parent
    rw [updateParent_parents, updateChild_parents]
    by_cases hEq : c = b
    · subst hEq
      simp only [if_true, mem_insert, and_true]
      exact or_comm
    · simp [hEq, Ne.symm hEq]
  children := fun a b => by
    rw [updateParent_children, updateChild_children]
    by_cases hEq : t = a
    · subst hEq
      simp only [if_true, mem_insert, true_and]
      exact or_comm
    · simp [hEq, Ne.symm hEq]

end LinksPlus

/-- The links to the children that were in the pool before the block came back. -/
theorem linkChildren_spec (hHash : ∀ (h : UInt256) (e : CTxMemPoolEntry), pool.mapTx[h]? = some e →
      e.tx.hash = h)
    (hNext : pool.NextTxExact) (ht : t ∈ pool.hashes) (batch : Finset UInt256) :
    LinksPlus pool (pool.linkChildren t batch)
      fun a b => a = t ∧ b ∉ batch ∧ pool.SpendsFrom t b := by
  simp only [← mem_spenders hHash hNext ht]
  -- the children met so far are linked, but for those of the block
  refine (foldl_invariant (fun done (st : CTxMemPool × Finset UInt256) =>
    LinksPlus pool st.1 (fun a b => a = t ∧ b ∉ batch ∧ b ∈ done) ∧ ∀ c, c ∈ st.2 ↔ c ∈ done)
    (pool.spenders t) ?_ ?_).1
  · exact ⟨⟨⟨rfl, rfl, rfl⟩, fun a b => by simp, fun a b => by simp⟩, by simp⟩
  · rintro done c rest ⟨linked, met⟩ - ⟨hPlus, hMet⟩
    simp only [List.mem_append, List.mem_singleton]
    split
    case isTrue hOld =>
      rw [hMet] at hOld
      have hSame : ∀ b, b ∈ done ∨ b = c ↔ b ∈ done :=
        fun b => or_iff_left_of_imp fun hEq => hEq ▸ hOld
      simp only [hSame]
      exact ⟨hPlus, hMet⟩
    case isFalse =>
      have hInsert : ∀ b, b ∈ insert c met ↔ b ∈ done ∨ b = c := fun b => by
        rw [mem_insert, hMet, or_comm]
      split
      case isTrue hBatch =>
        refine ⟨hPlus.absorb (fun a b h => ⟨h.1, h.2.1, .inl h.2.2⟩) ?_, hInsert⟩
        rintro a b ⟨ha, hb, hl | rfl⟩
        · exact .inl ⟨ha, hb, hl⟩
        · exact absurd hBatch hb
      case isFalse hBatch =>
        refine ⟨(hPlus.trans (.one linked t c)).absorb ?_ ?_, hInsert⟩
        · rintro a b (⟨ha, hb, hl⟩ | ⟨ha, rfl⟩)
          · exact ⟨ha, hb, .inl hl⟩
          · exact ⟨ha, hBatch, .inr rfl⟩
        · rintro a b ⟨ha, hb, hl | rfl⟩
          · exact .inl (.inl ⟨ha, hb, hl⟩)
          · exact .inl (.inr ⟨ha, rfl⟩)

/-! ## One turn -/

/-- What `UpdateForDescendants` does, once the descendants outside the block are known. -/
theorem updateForDescendants_spec {cache : Map UInt256 (Finset UInt256)}
    {updated : Finset UInt256} (ht : t ∈ pool.hashes)
    (hCost : 0 ≤ (pool.own t).2 ∧ (pool.own t).2 < 2 ^ 31)
    (hUpdated : walk pool.getMemPoolChildren (fun it => cache[it]?) pool.mapTx.size
      (pool.getMemPoolChildren t) ∅ \ batch = updated) (hSub : updated ⊆ pool.hashes) :
    Shifted pool (pool.updateForDescendants cache t batch).1
      (fun h => if h ∈ updated then pool.own t else 0)
      (fun h => if h = t then ∑ d ∈ updated, pool.share d else 0) ∧
    (pool.updateForDescendants cache t batch).1.mapLinks = pool.mapLinks ∧
    (pool.updateForDescendants cache t batch).2 = if updated = ∅ then cache
      else cache.upsert t ∅ fun ds => ds ∪ updated := by
  have hOwn : (((1, pool.valueAt t (·.nTxSize), pool.valueAt t (·.getModifiedFee)),
      toI32 (pool.valueAt t (·.sigOpCost))) : (Int × Int × Int) × Int) = pool.own t := by
    rw [valueAt_nTxSize, valueAt_getModifiedFee, valueAt_sigOpCost,
      toI32_of_small (by omega) (by omega)]
    have hCount := share_count ht
    rw [share_eq] at hCount ⊢
    simp [Prod.ext_iff, hCount]
  unfold updateForDescendants
  dsimp only
  rw [hUpdated]
  simp only [updateAncestorState_eq, updateDescendantState_eq, hOwn, sum_share hSub]
  have hFirst := @modifyEach_shifted pool updated (pool.own t) 0
  have hSecond := @modify_shifted (pool.modifyEach updated (·.shift (pool.own t) 0)) t 0
    (∑ d ∈ updated, pool.share d)
  have hBoth := hFirst.trans hSecond
  refine ⟨⟨fun h => ?_, hBoth.nextTx, hBoth.deltas⟩, ?_, trivial⟩
  · rw [hBoth.entry]
    simp
  · exact modifyEach_mapLinks _ _

/-- **After some turns**: the links from the transactions done are there, and they count in the sums
of their descendants outside the block, as these do in theirs.  What the cache holds are these
descendants. -/
structure Relinked (start pool : CTxMemPool) (cache : Map UInt256 (Finset UInt256))
    (batch done : Finset UInt256) : Prop where
  shifted : Shifted start pool
    (fun h => if h ∈ batch then 0
      else sumOver done (fun t => TransGen start.SpendsFrom t h) start.own)
    (fun h => if h ∈ done
      then sumOver (start.hashes \ batch) (TransGen start.SpendsFrom h) start.share else 0)
  parents : ∀ a b, pool.Parent a b ↔
    start.Parent a b ∨ (a ∈ done ∧ b ∉ batch ∧ start.SpendsFrom a b)
  children : ∀ a b, b ∈ pool.getMemPoolChildren a ↔ pool.Parent a b
  cached : ∀ (y : UInt256) (ys : Finset UInt256), cache[y]? = some ys →
    y ∈ done ∧ ∀ z, z ∈ ys ↔ z ∉ batch ∧ TransGen start.SpendsFrom y z

section Turns

variable {start : CTxMemPool} {batch : Finset UInt256} (hStart : Reentered start batch)

include hStart

variable {a b : UInt256} {cache : Map UInt256 (Finset UInt256)} {done : Finset UInt256}

/-- From outside the block the spending relation stays outside. -/
theorem Reentered.onward (ha : a ∉ batch) (hab : start.SpendsFrom a b) :
    b ∉ batch := fun hb => ha (hStart.outside a b hab hb)

theorem Reentered.spends (hab : start.Parent a b) : start.SpendsFrom a b :=
  ((hStart.parents a b).mp hab).1

theorem Relinked.refl : Relinked start start ∅ batch ∅ := by
  refine ⟨⟨fun h => ?_, rfl, rfl⟩, fun a b => by simp, hStart.linked.both, fun y ys hy => ?_⟩
  · have hZero : sumOver ∅ (fun t => TransGen start.SpendsFrom t h) start.own = 0 :=
      sumOver_eq (s := ∅) _ (by simp)
    rw [hZero, ite_self]
    exact (Shifted.refl start).entry h
  · cases hy

/-- **The walk with the cache** finds the descendants outside the block. -/
theorem Relinked.walk_spec {pool : CTxMemPool}
    {t : UInt256} (h : Relinked start pool cache batch done) (hDone : done ⊆ batch)
    (hClosed : ∀ a ∈ insert t done, ∀ b ∈ batch, start.SpendsFrom a b → b ∈ done)
    {next : UInt256 → Finset UInt256} (hNext : ∀ a b, b ∈ next a ↔
      start.Parent a b ∨ (a ∈ insert t done ∧ b ∉ batch ∧ start.SpendsFrom a b)) {z : UInt256}
    (hz : z ∉ batch) :
    z ∈ walk next (fun it => cache[it]?) start.hashes.card (next t) ∅ ↔
      TransGen start.SpendsFrom t z := by
  have hSpends : ∀ a b, b ∈ next a → start.SpendsFrom a b := fun a b hb =>
    ((hNext a b).mp hb).elim hStart.spends fun h => h.2.2
  -- from a transaction of these, or from outside the block, every spending is linked
  have hOnward : ∀ a b, (a ∈ insert t done ∨ a ∉ batch) → start.SpendsFrom a b →
      b ∈ next a ∧ (b ∈ insert t done ∨ b ∉ batch) := by
    rintro a b ha hab
    by_cases hb : b ∈ batch
    · have haIn : a ∈ batch := hStart.outside a b hab hb
      have hDoneB := hClosed a (ha.resolve_right fun hOut => hOut haIn) b hb hab
      exact ⟨(hNext a b).mpr (.inl ((hStart.parents a b).mpr ⟨hab, fun hCross => hCross.2 hb⟩)),
        .inl (mem_insert_of_mem hDoneB)⟩
    · refine ⟨(hNext a b).mpr ?_, .inr hb⟩
      rcases ha with ha | ha
      · exact .inr ⟨ha, hb, hab⟩
      · exact .inl ((hStart.parents a b).mpr ⟨hab, fun hCross => ha hCross.1⟩)
  have hReach : ∀ a z, (a ∈ insert t done ∨ a ∉ batch) →
      (Reaches next a z ↔ z = a ∨ TransGen start.SpendsFrom a z) := by
    intro a z ha
    unfold Reaches
    rw [reflTransGen_iff_eq_or_transGen]
    refine or_congr_right ⟨?_, fun hPath => (transGen_onward hOnward ha hPath).1⟩
    exact TransGen.lift id (fun a b hab => hSpends a b hab) a z
  have hGround : WalkGround next (fun it => cache[it]?) start.hashes := by
    refine ⟨fun a _ b hb => (spendsFrom_within (hSpends a b hb)).2, fun y ys hy z hz => ?_,
      fun y ys hy z hz c hc => ?_⟩
    · exact (spendsPath_within (((h.cached y ys hy).2 z).mp hz).2).2
    · obtain ⟨hOut, hPath⟩ := ((h.cached y ys hy).2 z).mp hz
      have hzc := hSpends z c hc
      exact ((h.cached y ys hy).2 c).mpr ⟨hStart.onward hOut hzc, hPath.tail hzc⟩
  have hStage : next t ⊆ start.hashes := fun c hc => (spendsFrom_within (hSpends t c hc)).2
  have hKnown : ∀ y ys, cache[y]? = some ys →
      ∀ z, z ∈ ys ↔ z ∉ batch ∧ Reaches next y z := by
    intro y ys hy z
    obtain ⟨hyDone, hys⟩ := h.cached y ys hy
    rw [hys, hReach y z (.inl (mem_insert_of_mem hyDone))]
    refine and_congr_right fun hOut => (or_iff_right ?_).symm
    rintro rfl
    exact hOut (hDone hyDone)
  rw [mem_walk_known hGround hStage le_rfl
    (fun y ys hy hOut => hOut (hDone (h.cached y ys hy).1)) hKnown hz]
  have ht : t ∈ insert t done ∨ t ∉ batch := .inl (mem_insert_self t done)
  constructor
  · rintro ⟨c, hc, hPath⟩
    have htc := hSpends t c hc
    rcases (hReach c z (hOnward t c ht htc).2).mp hPath with rfl | hPath
    · exact .single htc
    · exact .head htc hPath
  · intro hPath
    obtain ⟨c, htc, hRest⟩ := TransGen.head'_iff.mp hPath
    obtain ⟨hc, hcDone⟩ := hOnward t c ht htc
    refine ⟨c, hc, (hReach c z hcDone).mpr ?_⟩
    exact reflTransGen_iff_eq_or_transGen.mp hRest

/-- **One turn.** -/
theorem Relinked.step {pool : CTxMemPool} {t : UInt256} (h : Relinked start pool cache batch done)
    (hDone : done ⊆ batch) (ht : t ∈ batch) (hNew : t ∉ done)
    (hClosed : ∀ a ∈ insert t done, ∀ b ∈ batch, start.SpendsFrom a b → b ∈ done) :
    Relinked start (updateTransactionFromBlock batch (pool, cache) t).1
      (updateTransactionFromBlock batch (pool, cache) t).2 batch (insert t done) := by
  classical
  have htIn : t ∈ pool.hashes := h.shifted.hashes ▸ hStart.entries ht
  have hHash : ∀ (k : UInt256) (e : CTxMemPoolEntry), pool.mapTx[k]? = some e → e.tx.hash = k := by
    intro k e he
    obtain ⟨old, hOld, rfl⟩ := h.shifted.some_iff.mp he
    exact hStart.linked.hash k old hOld
  -- the links
  have hPlus := linkChildren_spec hHash (h.shifted.nextTxExact hStart.nextTx) htIn batch
  rw [h.shifted.spendsFrom] at hPlus
  unfold updateTransactionFromBlock
  rw [if_pos (has_iff.mpr htIn)]
  generalize pool.linkChildren t batch = linked at hPlus
  have hParents : ∀ a b, linked.Parent a b ↔
      start.Parent a b ∨ (a ∈ insert t done ∧ b ∉ batch ∧ start.SpendsFrom a b) := by
    intro a b
    rw [hPlus.parents, h.parents, or_assoc]
    refine or_congr_right ?_
    rw [mem_insert]
    constructor
    · rintro (⟨ha, hb, hab⟩ | ⟨rfl, hb, hab⟩)
      · exact ⟨.inr ha, hb, hab⟩
      · exact ⟨.inl rfl, hb, hab⟩
    · rintro ⟨rfl | ha, hb, hab⟩
      · exact .inr ⟨rfl, hb, hab⟩
      · exact .inl ⟨ha, hb, hab⟩
  have hChildren : ∀ a b, b ∈ linked.getMemPoolChildren a ↔ linked.Parent a b := by
    intro a b
    rw [hPlus.children, hPlus.parents, h.children]
  have hAll := h.shifted.trans hPlus.same.shifted
  -- the descendants
  have hWalk := fun z (hz : z ∉ batch) => h.walk_spec hStart hDone hClosed
    (fun a b => (hChildren a b).trans (hParents a b)) hz
  have hSize : linked.mapTx.size = start.hashes.card := by
    rw [← card_hashes, hAll.hashes]
  rw [← hSize] at hWalk
  generalize hUpdated : walk linked.getMemPoolChildren (fun it => cache[it]?) linked.mapTx.size
    (linked.getMemPoolChildren t) ∅ \ batch = updated
  have hMem : ∀ z, z ∈ updated ↔ z ∉ batch ∧ TransGen start.SpendsFrom t z := by
    intro z
    rw [← hUpdated, mem_sdiff, and_comm]
    exact and_congr_right fun hz => hWalk z hz
  have hInside : ∀ z ∈ updated, z ∈ start.hashes := fun z hz =>
    (spendsPath_within ((hMem z).mp hz).2).2
  have hCost : 0 ≤ (linked.own t).2 ∧ (linked.own t).2 < 2 ^ 31 := by
    rw [hAll.own]
    exact hStart.linked.cost_one (hStart.entries ht)
  obtain ⟨hShift, hLinks, hCache⟩ := updateForDescendants_spec
    (hAll.hashes ▸ hStart.entries ht) hCost hUpdated fun z hz => hAll.hashes ▸ hInside z hz
  refine ⟨?_, fun a b => ?_, fun a b => ?_, fun y ys hy => ?_⟩
  · -- the sums
    have hEnd := hAll.trans hShift
    refine ⟨fun k => ?_, hEnd.nextTx, hEnd.deltas⟩
    rw [hEnd.entry, hAll.own, hAll.share]
    have hAncestors : (if k ∈ batch then 0
        else sumOver done (fun t => TransGen start.SpendsFrom t k) start.own) + 0 +
        (if k ∈ updated then start.own t else 0) =
        if k ∈ batch then 0
          else sumOver (insert t done) (fun t => TransGen start.SpendsFrom t k) start.own := by
      by_cases hk : k ∈ batch
      · have hNot : k ∉ updated := fun hIn => ((hMem k).mp hIn).1 hk
        simp [hk, hNot]
      · rw [if_neg hk, if_neg hk, sumOver_insert hNew, add_zero, add_comm,
          if_congr ((hMem k).trans (and_iff_right hk)) rfl rfl]
    have hDescendants : (if k ∈ done
        then sumOver (start.hashes \ batch) (TransGen start.SpendsFrom k) start.share else 0) + 0 +
        (if k = t then ∑ d ∈ updated, start.share d else 0) =
        if k ∈ insert t done
          then sumOver (start.hashes \ batch) (TransGen start.SpendsFrom k) start.share else 0 := by
      by_cases hEq : k = t
      · subst hEq
        rw [if_neg hNew, if_pos rfl, if_pos (mem_insert_self k done), zero_add, zero_add]
        refine (sumOver_eq _ fun z => ?_).symm
        rw [hMem, mem_sdiff]
        constructor
        · exact fun hz => ⟨⟨hInside z ((hMem z).mpr hz), hz.1⟩, hz.2⟩
        · exact fun hz => ⟨hz.1.2, hz.2⟩
      · simp [hEq]
    congr 2
  · unfold Parent
    rw [parents_congr hLinks]
    exact hParents a b
  · unfold Parent
    rw [children_congr hLinks, parents_congr hLinks]
    exact hChildren a b
  · rw [hCache] at hy
    split at hy
    case isTrue =>
      obtain ⟨hyDone, hys⟩ := h.cached y ys hy
      exact ⟨mem_insert_of_mem hyDone, hys⟩
    case isFalse =>
      rw [Map.getElem?_upsert] at hy
      split at hy
      case isTrue hEq =>
        subst hEq
        have hNone : cache[t]? = none := by
          cases hOld : cache[t]? with
          | none => rfl
          | some zs => exact absurd (h.cached t zs hOld).1 hNew
        rw [hNone, Option.getD_none, empty_union] at hy
        rw [← Option.some.inj hy]
        exact ⟨mem_insert_self t done, hMem⟩
      case isFalse =>
        obtain ⟨hyDone, hys⟩ := h.cached y ys hy
        exact ⟨mem_insert_of_mem hyDone, hys⟩

/-- **All turns**, in an order where children come before their parents. -/
theorem Relinked.run (order : List UInt256) (hOrder : order.toFinset = batch)
    (hNodup : order.Nodup) (hFirst : order.Pairwise fun a b => ¬ start.SpendsFrom a b) :
    Relinked start (order.foldl (updateTransactionFromBlock batch) (start, ∅)).1
      (order.foldl (updateTransactionFromBlock batch) (start, ∅)).2 batch batch := by
  have hRun := foldl_invariant (f := updateTransactionFromBlock batch)
    (fun done st => Relinked start st.1 st.2 batch done.toFinset) order (b := (start, ∅))
    (by
      exact Relinked.refl hStart)
    (fun done t rest st hSplit h => by
      rw [hSplit] at hNodup hFirst hOrder
      rw [List.nodup_append] at hNodup
      rw [List.pairwise_append] at hFirst
      have hIn : ∀ x, x ∈ batch ↔ x ∈ done ∨ x = t ∨ x ∈ rest := by
        intro x
        rw [← hOrder]
        simp only [List.mem_toFinset, List.mem_append, List.mem_cons]
      have hNew : t ∉ done.toFinset := fun hIn =>
        hNodup.2.2 t (List.mem_toFinset.mp hIn) t List.mem_cons_self rfl
      rw [List.toFinset_append, union_comm]
      refine h.step hStart (fun x hx => (hIn x).mpr (.inl (List.mem_toFinset.mp hx)))
        ((hIn t).mpr (.inr (.inl rfl))) hNew fun a ha b hb hab => ?_
      -- what spends from one of these comes before it
      rw [List.mem_toFinset]
      rw [mem_insert, List.mem_toFinset] at ha
      rcases (hIn b).mp hb with hbDone | rfl | hbRest
      · exact hbDone
      · rcases ha with rfl | ha
        · exact absurd (hStart.linked.acyclic a)
            (not_not.mpr (.single ((hStart.parents a a).mpr ⟨hab, fun hCross => hCross.2 hCross.1⟩)))
        · exact absurd hab (hFirst.2.2 a ha b List.mem_cons_self)
      · rcases ha with rfl | ha
        · exact absurd hab ((List.pairwise_cons.mp hFirst.2.1).1 b hbRest)
        · exact absurd hab (hFirst.2.2 a ha b (List.mem_cons_of_mem t hbRest)))
  rwa [hOrder] at hRun

end Turns

/-! ## The pool after the last turn -/

section Resurrected

variable {start : CTxMemPool} {batch : Finset UInt256} (hStart : Reentered start batch)

include hStart

/-- Before the call the ancestors by the links are those on the same side. -/
theorem Reentered.ancestor_iff (a b : UInt256) : start.Ancestor a b ↔
    TransGen start.SpendsFrom a b ∧ (a ∈ batch ↔ b ∈ batch) := by
  have hParent : ∀ a b, start.SpendsFrom a b → (a ∈ batch ↔ b ∈ batch) → start.Parent a b :=
    fun a b hab hSide => (hStart.parents a b).mpr ⟨hab, fun hCross => hCross.2 (hSide.mp hCross.1)⟩
  constructor
  · intro hPath
    refine ⟨TransGen.lift id (fun a b hab => hStart.spends hab) a b hPath, ?_⟩
    have hStep : ∀ a b, start.Parent a b → (a ∈ batch ↔ b ∈ batch) := by
      intro a b hab
      obtain ⟨hSpends, hNot⟩ := (hStart.parents a b).mp hab
      exact ⟨fun ha => by_contra fun hb => hNot ⟨ha, hb⟩, hStart.outside a b hSpends⟩
    induction hPath with
    | single hab => exact hStep a _ hab
    | tail _ hbc ih => exact ih.trans (hStep _ _ hbc)
  · rintro ⟨hPath, hSide⟩
    by_cases hb : b ∈ batch
    · refine (transGen_backward (P := (· ∈ batch)) (fun x y hy hxy => ?_) hb hPath).1
      have hx := hStart.outside x y hxy hy
      exact ⟨hParent x y hxy (iff_of_true hx hy), hx⟩
    · have ha : a ∉ batch := fun ha => hb (hSide.mp ha)
      refine (transGen_onward (P := (· ∉ batch)) (fun x y hx hxy => ?_) ha hPath).1
      have hy := hStart.onward hx hxy
      exact ⟨hParent x y hxy (iff_of_false hx hy), hy⟩

theorem Reentered.spends_acyclic (h : UInt256) : ¬ TransGen start.SpendsFrom h h := fun hCycle =>
  hStart.linked.acyclic h ((hStart.ancestor_iff h h).mpr ⟨hCycle, Iff.rfl⟩)

/-- A sum over relatives, split by the side they are on. -/
theorem Reentered.sumOver_sides {M : Type} [AddCommMonoid M] (P : UInt256 → Prop) (w : UInt256 → M) :
    sumOver start.hashes P w = sumOver (start.hashes \ batch) P w + sumOver batch P w := by
  rw [sumOver_split P (· ∈ batch)]
  congr 1
  · refine sumOver_congr (fun x => ?_) fun _ _ _ => rfl
    rw [mem_sdiff]
    tauto
  · refine sumOver_congr (fun x => ?_) fun _ _ _ => rfl
    have hIn := @hStart.entries x
    tauto

variable {pool : CTxMemPool} {cache : Map UInt256 (Finset UInt256)}
  (h : Relinked start pool cache batch batch)

include h

theorem Relinked.spends (a b : UInt256) : pool.Parent a b ↔ pool.SpendsFrom a b := by
  rw [h.parents, hStart.parents, h.shifted.spendsFrom]
  tauto

theorem Relinked.ancestor_eq : pool.Ancestor = TransGen start.SpendsFrom := by
  have hParent : pool.Parent = start.SpendsFrom := by
    funext a b
    rw [← h.shifted.spendsFrom]
    exact propext (h.spends hStart a b)
  unfold Ancestor
  rw [hParent]

theorem Relinked.linked : pool.Linked := by
  refine ⟨fun k e he => ?_, h.children, fun a b hab => ?_, fun k hCycle => ?_, fun k e he => ?_, ?_⟩
  · obtain ⟨old, hOld, rfl⟩ := h.shifted.some_iff.mp he
    exact hStart.linked.hash k old hOld
  · exact spendsFrom_within ((h.spends hStart a b).mp hab)
  · rw [h.ancestor_eq hStart] at hCycle
    exact hStart.spends_acyclic k hCycle
  · obtain ⟨old, hOld, rfl⟩ := h.shifted.some_iff.mp he
    exact hStart.linked.cost k old hOld
  · rw [h.shifted.hashes, h.shifted.own]
    exact hStart.linked.costs

/-- **The sums are exact** once the children of the block's transactions are linked. -/
theorem Relinked.summed : pool.Summed pool.Ancestor := by
  have hAncestor := h.ancestor_eq hStart
  constructor
  · intro k e he
    obtain ⟨old, hOld, rfl⟩ := h.shifted.some_iff.mp he
    rw [ancestorState_shift, hStart.summed.ancestors k old hOld, hAncestor,
        h.shifted.hashes, h.shifted.own, add_assoc]
    congr 1
    by_cases hk : k ∈ batch
    · -- all ancestors of a transaction of the block are in the block
      rw [if_pos hk, add_zero]
      refine sumOver_congr (fun a => and_congr_right fun _ => ?_) fun _ _ _ => rfl
      rw [hStart.ancestor_iff]
      have hBack : ∀ x y, y ∈ batch → start.SpendsFrom x y → start.SpendsFrom x y ∧ x ∈ batch :=
        fun x y hy hxy => ⟨hxy, hStart.outside x y hxy hy⟩
      exact and_iff_left_of_imp fun hPath => iff_of_true (transGen_backward hBack hk hPath).2 hk
    · rw [if_neg hk, hStart.sumOver_sides (fun t => TransGen start.SpendsFrom t k)]
      congr 1
      refine sumOver_congr (fun a => ?_) fun _ _ _ => rfl
      rw [hStart.ancestor_iff, mem_sdiff]
      tauto
  · intro k e he
    obtain ⟨old, hOld, rfl⟩ := h.shifted.some_iff.mp he
    rw [descendantState_shift, hStart.summed.descendants k old hOld, hAncestor,
        h.shifted.hashes, h.shifted.share, add_assoc]
    congr 1
    by_cases hk : k ∈ batch
    · rw [if_pos hk, hStart.sumOver_sides (TransGen start.SpendsFrom k), add_comm]
      congr 1
      refine sumOver_congr (fun d => ?_) fun _ _ _ => rfl
      rw [hStart.ancestor_iff]
      have hIn := @hStart.entries d
      tauto
    · -- all descendants of a transaction outside the block are outside
      rw [if_neg hk, add_zero]
      refine sumOver_congr (fun d => and_congr_right fun _ => ?_) fun _ _ _ => rfl
      rw [hStart.ancestor_iff]
      have hOnward : ∀ x y, x ∉ batch → start.SpendsFrom x y → start.SpendsFrom x y ∧ y ∉ batch :=
        fun x y hx hxy => ⟨hxy, hStart.onward hx hxy⟩
      exact and_iff_left_of_imp fun hPath => iff_of_false hk (transGen_onward hOnward hk hPath).2

theorem Relinked.consistent : pool.Consistent := by
  refine ⟨h.linked hStart, h.spends hStart, h.summed hStart, h.shifted.nextTxExact hStart.nextTx,
    fun k e he => ?_⟩
  obtain ⟨old, hOld, rfl⟩ := h.shifted.some_iff.mp he
  rw [h.shifted.deltas]
  exact hStart.feeDelta k old hOld

end Resurrected

/-- The transactions are there after their additions, and their hashes differ. -/
theorem AddedInTurn.spec (hLinked : pool.Linked) (h : pool.AddedInTurn entries) :
    (entries.map (·.tx.hash)).Nodup ∧ (∀ e ∈ entries, e.tx.hash ∉ pool.hashes) ∧
      ∀ k t, (∃ e, (pool.addAll entries).mapTx[k]? = some e ∧ e.tx = t) ↔
        (∃ e, pool.mapTx[k]? = some e ∧ e.tx = t) ∨ ∃ e ∈ entries, e.tx.hash = k ∧ e.tx = t := by
  induction entries generalizing pool with
  | nil => exact ⟨List.nodup_nil, by simp, fun k t => by simp [addAll]⟩
  | cons entry entries ih =>
    obtain ⟨hNew, -, hRest⟩ := h
    have hAdded :=
      addUnchecked_added hLinked hNew.fresh hNew.self (ancestorsOf_subset hLinked entry)
    obtain ⟨hNodup, hFresh, hTx⟩ := ih (hAdded.linked hLinked hNew) hRest
    rw [hAdded.hashes] at hFresh
    refine ⟨?_, fun e he => ?_, fun k t => ?_⟩
    · rw [List.map_cons, List.nodup_cons]
      refine ⟨fun hIn => ?_, hNodup⟩
      obtain ⟨e, he, hEq⟩ := List.mem_map.mp hIn
      exact hFresh e he (mem_insert.mpr (.inl hEq))
    · rcases List.mem_cons.mp he with rfl | he
      · exact hNew.fresh
      · exact fun hIn => hFresh e he (mem_insert_of_mem hIn)
    · refine (hTx k t).trans ?_
      rw [hAdded.tx_iff hNew.fresh, or_assoc]
      refine or_congr_right ?_
      simp only [List.mem_cons, exists_eq_or_imp]
      refine or_congr_left ?_
      constructor
      · rintro ⟨rfl, rfl⟩
        exact ⟨rfl, rfl⟩
      · rintro ⟨rfl, rfl⟩
        exact ⟨rfl, rfl⟩

/-- **The transactions of a block come back.** -/
theorem Consistent.resurrect (h : pool.Consistent)
    (hEntries : pool.Resurrectable entries) : (pool.resurrect entries).Consistent := by
  have hStart := h.reentered.addAll hEntries.inTurn hEntries.parentsFirst
    (fun e he i hi hIn => absurd hIn (hEntries.outside e he i hi))
    (fun _ _ b hb => absurd hb (notMem_empty b))
  obtain ⟨hNodup, hFresh, hTx⟩ := hEntries.inTurn.spec h.linked
  -- a transaction spends from none that comes after it in the block
  have hFirst : (entries.map (·.tx.hash)).reverse.Pairwise
      fun a b => ¬ (pool.addAll entries).SpendsFrom a b := by
    rw [List.pairwise_reverse, List.pairwise_map]
    refine hEntries.parentsFirst.imp_of_mem fun {e e'} he he' hNot => ?_
    rintro ⟨-, found, hFound, i, hi, hEq⟩
    rcases (hTx e.tx.hash found.tx).mp ⟨found, hFound, rfl⟩ with ⟨old, hOld, -⟩ | ⟨e₁, he₁, hHash, hSame⟩
    · exact hFresh e he (mem_hashes_of_some hOld)
    · have hEqual : e₁ = e := List.inj_on_of_nodup_map hNodup he₁ he hHash
      rw [← hSame, hEqual] at hi
      exact hNot i hi hEq
  have hRun := Relinked.run hStart (entries.map (·.tx.hash)).reverse
    List.toFinset_reverse (List.nodup_reverse.mpr hNodup) hFirst
  exact hRun.consistent hStart

end CTxMemPool

end Electrum
