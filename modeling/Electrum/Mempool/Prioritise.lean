import Electrum.Mempool.Consistency

/-!
# Fee deltas

`PrioritiseTransaction` changes the fee that an entry counts for.  It moves both sums of the entry
and the descendant sums of its ancestors, but not the ancestor sums of its descendants.

Main results:
* `prioritiseTransaction_feesExact_iff` — when the sums of fees are right after the call
-/

namespace Electrum

open CTxMemPoolEntry Option Finset Relation

namespace CTxMemPool

variable {pool : CTxMemPool}

/-- The fee that the entry at a hash counts for. -/
def fee (pool : CTxMemPool) (h : UInt256) : Int := pool.valueAt h (·.getModifiedFee)

/-- **The sums of fees are exact**: over the ancestors and over the descendants of every entry, the
entry included. -/
structure FeesExact (pool : CTxMemPool) : Prop where
  ancestors : ∀ (h : UInt256) (e : CTxMemPoolEntry), pool.mapTx[h]? = some e →
    e.nModFeesWithAncestors =
      e.getModifiedFee + sumOver pool.hashes (TransGen pool.SpendsFrom · h) pool.fee
  descendants : ∀ (h : UInt256) (e : CTxMemPoolEntry), pool.mapTx[h]? = some e →
    e.nModFeesWithDescendants =
      e.getModifiedFee + sumOver pool.hashes (TransGen pool.SpendsFrom h) pool.fee

theorem sumOver_fee (nodes : Finset UInt256) (P : UInt256 → Prop) :
    (sumOver nodes P pool.share).2.2 = sumOver nodes P pool.fee := by
  unfold sumOver
  rw [Prod.snd_sum, Prod.snd_sum]
  exact sum_congr rfl fun h _ => (valueAt_getModifiedFee h).symm

theorem Summed.feesExact (h : pool.Summed (TransGen pool.SpendsFrom)) : pool.FeesExact := by
  constructor
  · intro k e hEntry
    have hFees := congrArg (fun s => s.1.2.2) (h.ancestors k e hEntry)
    have hSum : (sumOver pool.hashes (TransGen pool.SpendsFrom · k) pool.own).1.2.2 =
        sumOver pool.hashes (TransGen pool.SpendsFrom · k) pool.fee := by
      rw [← sumOver_fee]
      unfold sumOver
      rw [Prod.fst_sum, sum_congr rfl fun a _ => (share_eq a).symm]
    rw [← hSum]
    exact hFees
  · intro k e hEntry
    have hFees := congrArg (fun s => s.2.2) (h.descendants k e hEntry)
    rw [← sumOver_fee]
    exact hFees

/-! ## What the call does -/

/-- An unknown transaction: only the delta is kept. -/
theorem prioritiseTransaction_unknown {hash : UInt256} (hNot : hash ∉ pool.hashes)
    (nFeeDelta : Int) : (pool.prioritiseTransaction hash nFeeDelta).mapTx = pool.mapTx := by
  have hNone : pool.mapTx[hash]? = none := by
    rwa [mem_hashes, not_isSome_iff_eq_none] at hNot
  have hSame : ∀ f : CTxMemPoolEntry → CTxMemPoolEntry, pool.mapTx.modify hash f = pool.mapTx := by
    intro f
    apply Std.ExtTreeMap.ext_getElem?
    intro k
    rw [Map.getElem?_modify_eq]
    by_cases hEq : hash = k
    · subst hEq
      rw [hNone]
      rfl
    · simp [hEq]
  unfold prioritiseTransaction modify
  dsimp only
  rw [hSame, hNone]

/-- A known one: its entry and its ancestors change. -/
theorem prioritiseTransaction_known (h : pool.Consistent) {hash : UInt256} {e₀ : CTxMemPoolEntry}
    (hEntry : pool.mapTx[hash]? = some e₀) (nFeeDelta : Int) :
    ∃ above : Finset UInt256, (∀ a, a ∈ above ↔ pool.Ancestor a hash) ∧
      ∀ k, (pool.prioritiseTransaction hash nFeeDelta).mapTx[k]? = (pool.mapTx[k]?).map fun e =>
          if k = hash then e.updateFeeDelta (e.feeDelta + nFeeDelta)
          else if k ∈ above then e.shift 0 (0, 0, nFeeDelta) else e := by
  have hDelta := h.feeDelta hash e₀ hEntry
  refine ⟨pool.ancestorsOf e₀ false, mem_ancestorsOf_links h.linked hEntry, fun k => ?_⟩
  have hNotSelf : hash ∉ pool.ancestorsOf e₀ false := fun hIn =>
    h.linked.acyclic hash ((mem_ancestorsOf_links h.linked hEntry hash).mp hIn)
  unfold prioritiseTransaction
  dsimp only
  rw [← hDelta]
  generalize hMid : ({ pool with mapDeltas := pool.mapDeltas.insert hash (e₀.feeDelta + nFeeDelta) } :
    CTxMemPool).modify hash (·.updateFeeDelta (e₀.feeDelta + nFeeDelta)) = mid
  have hMidTx : ∀ j, mid.mapTx[j]? = (pool.mapTx[j]?).map fun e =>
      if hash = j then e.updateFeeDelta (e₀.feeDelta + nFeeDelta) else e := by
    intro j
    rw [← hMid]
    exact Map.getElem?_modify_eq _ _ _ _
  have hAt : mid.mapTx[hash]? = some (e₀.updateFeeDelta (e₀.feeDelta + nFeeDelta)) := by
    rw [hMidTx, hEntry]
    simp
  -- the walk upwards does not see the fees
  have hWalk : mid.ancestorsOf (e₀.updateFeeDelta (e₀.feeDelta + nFeeDelta)) false =
      pool.ancestorsOf e₀ false := by
    have hSize : mid.mapTx.size = pool.mapTx.size := by
      rw [← hMid]
      exact Std.ExtTreeMap.size_modify
    have hLinks : mid.mapLinks = pool.mapLinks := by
      rw [← hMid]
      rfl
    rw [ancestorsOf_eq, ancestorsOf_eq, hSize]
    unfold walkStart
    rw [parents_congr hLinks]
    rfl
  rw [hAt]
  simp only [updateDescendantState_eq, modifyEach_mapTx, hWalk, hMidTx, Option.map_map]
  refine Option.map_congr fun e hk => ?_
  by_cases hEq : k = hash
  · subst hEq
    rw [hEntry] at hk
    obtain rfl := Option.some.inj hk
    simp [hNotSelf]
  · simp [hEq, Ne.symm hEq]

/-! ## The sums after the call -/

section Prioritised

variable (h : pool.Consistent) {hash : UInt256} {e₀ : CTxMemPoolEntry}
  (hEntry : pool.mapTx[hash]? = some e₀) (nFeeDelta : Int)

include h hEntry

/-- One fee changed in a sum. -/
theorem sumOver_fee_prioritised (P : UInt256 → Prop) [Decidable (P hash)] :
    sumOver pool.hashes P (pool.prioritiseTransaction hash nFeeDelta).fee =
      sumOver pool.hashes P pool.fee + if P hash then nFeeDelta else 0 := by
  classical
  obtain ⟨above, -, hTx⟩ := prioritiseTransaction_known h hEntry nFeeDelta
  have hFee : ∀ k ∈ pool.hashes, (pool.prioritiseTransaction hash nFeeDelta).fee k =
      pool.fee k + if k = hash then nFeeDelta else 0 := by
    intro k hk
    obtain ⟨e, he⟩ := exists_entry hk
    unfold fee valueAt
    rw [hTx, he]
    simp only [map_some, elim_some]
    by_cases hEq : k = hash
    · simp [hEq, getModifiedFee, updateFeeDelta, add_assoc]
    · rw [if_neg hEq]
      split <;> simp [getModifiedFee, shift]
  have hIn := mem_hashes_of_some hEntry
  unfold sumOver
  rw [sum_congr rfl fun k hk => hFee k (mem_filter.mp hk).1, sum_add_distrib, sum_ite_eq']
  congr 1
  exact if_congr (by rw [mem_filter]; exact and_iff_right hIn) rfl rfl

/-- **The sums after the call**: those over descendants are right; one over ancestors is right
unless the fee of an ancestor changed. -/
theorem prioritised_feesExact_iff : (pool.prioritiseTransaction hash nFeeDelta).FeesExact ↔
    ∀ d, pool.Ancestor hash d → nFeeDelta = 0 := by
  classical
  have hOld := h.exact.sums.feesExact
  have hAncestor : pool.Ancestor = TransGen pool.SpendsFrom := by
    unfold Ancestor
    rw [h.parent_eq]
  obtain ⟨above, hAbove, hTx⟩ := prioritiseTransaction_known h hEntry nFeeDelta
  have hSum := sumOver_fee_prioritised h hEntry nFeeDelta
  obtain ⟨hHashes, hSpends⟩ := @spendsFrom_congr pool (pool.prioritiseTransaction hash nFeeDelta)
    (fun k => by
      rw [hTx]
      cases pool.mapTx[k]? with
      | none => rfl
      | some e =>
        split
        · rfl
        · split <;> rfl)
  have hNotSelf : ¬ TransGen pool.SpendsFrom hash hash := by
    rw [← hAncestor]
    exact h.linked.acyclic hash
  constructor
  · intro hExact d hd
    -- the ancestor sum of a descendant did not move
    obtain ⟨e, he⟩ := exists_entry (h.linked.ancestor_within hd).2
    have hNe : d ≠ hash := by
      rintro rfl
      exact h.linked.acyclic d hd
    have hNotAbove : d ∉ above := fun hIn =>
      h.linked.acyclic d (((hAbove d).mp hIn).trans hd)
    have hAt : (pool.prioritiseTransaction hash nFeeDelta).mapTx[d]? = some e := by
      rw [hTx, he, map_some, if_neg hNe, if_neg hNotAbove]
    have hBefore := hOld.ancestors d e he
    have hAfter := hExact.ancestors d e hAt
    rw [hAncestor] at hd
    rw [hHashes, hSpends, hSum, if_pos hd] at hAfter
    omega
  · intro hNone
    constructor
    · intro k e' he'
      rw [hTx] at he'
      obtain ⟨e, he, rfl⟩ := map_eq_some_iff.mp he'
      have hBefore := hOld.ancestors k e he
      rw [hHashes, hSpends, hSum]
      by_cases hEq : k = hash
      · subst hEq
        rw [if_pos rfl, if_neg hNotSelf]
        simp only [getModifiedFee, updateFeeDelta] at hBefore ⊢
        omega
      · have hZero : (if TransGen pool.SpendsFrom hash k then nFeeDelta else 0) = 0 := by
          split
          case isTrue hBelow => exact hNone k (hAncestor ▸ hBelow)
          case isFalse => rfl
        rw [if_neg hEq, hZero]
        split <;> simpa [getModifiedFee, shift] using hBefore
    · intro k e' he'
      rw [hTx] at he'
      obtain ⟨e, he, rfl⟩ := map_eq_some_iff.mp he'
      have hBefore := hOld.descendants k e he
      rw [hHashes, hSpends, hSum]
      by_cases hEq : k = hash
      · subst hEq
        rw [if_pos rfl, if_neg hNotSelf]
        simp only [getModifiedFee, updateFeeDelta] at hBefore ⊢
        omega
      · rw [if_neg hEq, ← hAncestor, if_congr (hAbove k).symm rfl rfl]
        rw [← hAncestor] at hBefore
        split
        · simp only [getModifiedFee, shift] at hBefore ⊢
          omega
        · rw [add_zero]
          exact hBefore

end Prioritised

/-- **Fee deltas and the sums.** After the call the sums of fees are right exactly when the
transaction is not in the pool, its fee does not change, or no entry spends from it. -/
theorem prioritiseTransaction_feesExact_iff (h : pool.Consistent) (hash : UInt256)
    (nFeeDelta : Int) : (pool.prioritiseTransaction hash nFeeDelta).FeesExact ↔
      hash ∉ pool.hashes ∨ nFeeDelta = 0 ∨ ∀ d, ¬ pool.SpendsFrom hash d := by
  by_cases hIn : hash ∈ pool.hashes
  · obtain ⟨e₀, hEntry⟩ := exists_entry hIn
    rw [prioritised_feesExact_iff h hEntry]
    constructor
    · intro hNone
      by_cases hZero : nFeeDelta = 0
      · exact .inr (.inl hZero)
      · exact .inr (.inr fun d hd => hZero (hNone d (.single ((h.spends hash d).mpr hd))))
    · rintro (hOut | hZero | hLeaf) d hd
      · exact absurd hIn hOut
      · exact hZero
      · obtain ⟨c, hc, -⟩ := TransGen.head'_iff.mp hd
        exact absurd ((h.spends hash c).mp hc) (hLeaf c)
  · refine iff_of_true ?_ (.inl hIn)
    have hTx := prioritiseTransaction_unknown hIn nFeeDelta
    obtain ⟨hHashes, hSpends⟩ := @spendsFrom_congr pool (pool.prioritiseTransaction hash nFeeDelta)
      (fun k => by rw [hTx])
    have hFee : (pool.prioritiseTransaction hash nFeeDelta).fee = pool.fee := by
      unfold fee valueAt
      rw [hTx]
    have hOld := h.exact.sums.feesExact
    refine ⟨fun k e he => ?_, fun k e he => ?_⟩
    · rw [hTx] at he
      rw [hHashes, hSpends, hFee]
      exact hOld.ancestors k e he
    · rw [hTx] at he
      rw [hHashes, hSpends, hFee]
      exact hOld.descendants k e he

end CTxMemPool

/-! ## A transaction and its child -/

/-- A transaction with the given inputs, as far as the pool is concerned. -/
def looseTx (hash : UInt256) (vin : List COutPoint) : CTransaction where
  hash := hash
  nVersion := CTransaction.TXDZEEL_VERSION_V2
  nTime := 0
  vin := vin.map CTxIn.mk
  vout := []
  strDZeel := ""

def looseEntry (hash : UInt256) (vin : List COutPoint) : CTxMemPoolEntry :=
  .new (looseTx hash vin) 1000 0 200 4

/-- A transaction, and one that spends from it. -/
def parentAndChild : CTxMemPool :=
  (({} : CTxMemPool).add (looseEntry 1 [⟨100, 0⟩])).add (looseEntry 2 [⟨1, 0⟩])

instance (pool : CTxMemPool) (tx : CTransaction) : Decidable (pool.NoConflict tx) :=
  inferInstanceAs (Decidable (∀ i ∈ tx.vin, pool.mapNextTx[i.prevout.key]? = none))

instance (pool : CTxMemPool) (tx : CTransaction) : Decidable (pool.NoChildren tx) :=
  Map.decidableForall pool.mapNextTx fun o _ => o.1 ≠ tx.hash

theorem parentAndChild_consistent : parentAndChild.Consistent := by
  have hFirst : (({} : CTxMemPool).add (looseEntry 1 [⟨100, 0⟩])).Consistent :=
    CTxMemPool.consistent_empty.add ⟨by decide +kernel, by decide +kernel, by decide +kernel,
      by decide +kernel, by decide +kernel, by decide +kernel, by decide +kernel⟩
      (by decide +kernel) (by decide +kernel)
  exact hFirst.add ⟨by decide +kernel, by decide +kernel, by decide +kernel, by decide +kernel,
    by decide +kernel, by decide +kernel, by decide +kernel⟩ (by decide +kernel) (by decide +kernel)

/-- The delta of the child is accounted for, that of the parent is not. -/
theorem prioritiseTransaction_feesExact_parentAndChild : parentAndChild.Consistent ∧
    (parentAndChild.prioritiseTransaction 2 500).FeesExact ∧
    ¬ (parentAndChild.prioritiseTransaction 1 500).FeesExact := by
  have hSpends : parentAndChild.SpendsFrom 1 2 :=
    ⟨by decide +kernel, looseEntry 2 [⟨1, 0⟩] |>.shift ((1, 200, 1000), 4) 0, by decide +kernel,
      ⟨⟨1, 0⟩⟩, by decide, rfl⟩
  have hLeaf : ∀ d, ¬ parentAndChild.SpendsFrom 2 d := by
    rintro d ⟨-, e, hEntry, hInput⟩
    have hAll : ∀ (h : UInt256) (e : CTxMemPoolEntry), parentAndChild.mapTx[h]? = some e →
        ¬ ∃ i ∈ e.tx.vin, i.prevout.hash = 2 := by decide +kernel
    exact hAll d e hEntry hInput
  refine ⟨parentAndChild_consistent, ?_, fun hExact => ?_⟩
  · exact (CTxMemPool.prioritiseTransaction_feesExact_iff parentAndChild_consistent 2 500).mpr
      (.inr (.inr hLeaf))
  · rcases (CTxMemPool.prioritiseTransaction_feesExact_iff parentAndChild_consistent 1 500).mp
      hExact with hOut | hZero | hNone
    · exact hOut (by decide +kernel)
    · exact absurd hZero (by decide)
    · exact hNone 2 hSpends

/-- **A stale sum.** A transaction with a child gets a fee delta of 500; the child's sum over its
ancestors stays at 2000, while the fees that it is the sum of are 1000 and 1500. -/
theorem prioritiseTransaction_stale_ancestorFees : parentAndChild.Consistent ∧
    (parentAndChild.prioritiseTransaction 1 500).fee 1 = 1500 ∧
    (parentAndChild.prioritiseTransaction 1 500).fee 2 = 1000 ∧
    (parentAndChild.prioritiseTransaction 1 500).valueAt 2 (·.nModFeesWithAncestors) = 2000 ∧
    ¬ (parentAndChild.prioritiseTransaction 1 500).FeesExact := by
  refine ⟨parentAndChild_consistent, by decide +kernel, by decide +kernel, by decide +kernel,
    fun hExact => ?_⟩
  obtain ⟨e, hEntry⟩ := CTxMemPool.exists_entry
    (show (1 : UInt256) ∈ parentAndChild.hashes by decide +kernel)
  have hBelow : parentAndChild.Ancestor 1 2 := .single (by decide +kernel :
    (1 : UInt256) ∈ parentAndChild.getMemPoolParents 2)
  have hZero := (CTxMemPool.prioritised_feesExact_iff parentAndChild_consistent hEntry 500).mp
    hExact 2 hBelow
  exact absurd hZero (by decide)

end Electrum
