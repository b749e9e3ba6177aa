import Electrum.Mempool.Removing

/-!
# What is in the pool

The transactions of the pool, the outputs they spend and the governance objects, whatever the links
and the sums are.  `addUnchecked` adds one transaction and `RemoveStaged` takes some out; neither
touches the objects.  Nothing here needs a consistent pool: between the two halves of a
reorganisation, and after it, the links may lack a child.

Main results:
* `removeStaged_shrunk` — what a removal leaves of any pool
* `addUnchecked_grown` — what an addition makes of any pool
* `Shrunk.nextTxExact`, `Grown.nextTxExact` — both keep `mapNextTx` exact
-/

namespace Electrum

open Finset Option Relation

/-- The governance objects that the pool holds. -/
structure DaoMaps where
  proposals : Map UInt256 CProposal
  paymentRequests : Map UInt256 CPaymentRequest
  consultations : Map UInt256 CConsultation
  answers : Map UInt256 CConsultationAnswer

namespace CTxMemPool

variable {pool pool' pool'' : CTxMemPool}

/-- The transaction at a hash. -/
def txAt (pool : CTxMemPool) (h : UInt256) : Option CTransaction := (pool.mapTx[h]?).map (·.tx)

def objects (pool : CTxMemPool) : DaoMaps :=
  ⟨pool.mapProposal, pool.mapPaymentRequest, pool.mapConsultation, pool.mapAnswer⟩

/-- The outputs that a transaction spends. -/
def spentBy (t : CTransaction) : List (UInt256 × Nat) := t.vin.map (·.prevout.key)

/-- Every entry stands under the hash of its transaction. -/
def Keyed (pool : CTxMemPool) : Prop := ∀ h t, pool.txAt h = some t → t.hash = h

variable {h : UInt256}

theorem mem_hashes_iff_txAt : h ∈ pool.hashes ↔ ∃ t, pool.txAt h = some t := by
  rw [mem_hashes, txAt, ← isSome_map (f := CTxMemPoolEntry.tx), isSome_iff_exists]

variable {t : CTransaction} {f : CTxMemPoolEntry → CTxMemPoolEntry}

theorem txAt_eq_some : pool.txAt h = some t ↔ ∃ e, pool.mapTx[h]? = some e ∧ e.tx = t := by
  unfold txAt
  rw [map_eq_some_iff]

theorem nextTxExact_iff : pool.NextTxExact ↔
    ∀ (o : UInt256 × Nat) (t : CTransaction), pool.mapNextTx[o]? = some t ↔
      pool.txAt t.hash = some t ∧ o ∈ spentBy t := by
  simp only [NextTxExact, txAt_eq_some, spentBy, List.mem_map]

/-- **No two transactions spend the same output.** -/
theorem NextTxExact.spender_unique (hNext : pool.NextTxExact) (hKeyed : pool.Keyed)
    {h' : UInt256} {t' : CTransaction} (ht : pool.txAt h = some t) (ht' : pool.txAt h' = some t')
    {o : UInt256 × Nat} (ho : o ∈ spentBy t) (ho' : o ∈ spentBy t') : h = h' := by
  rw [nextTxExact_iff] at hNext
  have hHash : t.hash = h := hKeyed h t ht
  have hHash' : t'.hash = h' := hKeyed h' t' ht'
  subst hHash hHash'
  have hFirst := (hNext o t).mpr ⟨ht, ho⟩
  have hSecond := (hNext o t').mpr ⟨ht', ho'⟩
  rw [hFirst] at hSecond
  rw [some.inj hSecond]

/-! ## Removing -/

/-- **Some transactions are gone**, with what they spent; links are lost and none is made, and the
objects stay. -/
structure Shrunk (pool pool' : CTxMemPool) (gone : Finset UInt256) : Prop where
  txs : ∀ h, pool'.txAt h = if h ∈ gone then none else pool.txAt h
  nextTx : ∀ o t, pool'.mapNextTx[o]? = some t ↔
    pool.mapNextTx[o]? = some t ∧ ∀ r ∈ gone, ∀ t', pool.txAt r = some t' → o ∉ spentBy t'
  children : ∀ h, pool'.getMemPoolChildren h ⊆ pool.getMemPoolChildren h
  objects : pool'.objects = pool.objects

namespace Shrunk

variable {gone gone' : Finset UInt256}

/-- A change of sums and links that makes no link. -/
theorem of_txs (hTxs : ∀ h, pool'.txAt h = pool.txAt h) (hNext : pool'.mapNextTx = pool.mapNextTx)
    (hChildren : ∀ h, pool'.getMemPoolChildren h ⊆ pool.getMemPoolChildren h)
    (hObjects : pool'.objects = pool.objects) : Shrunk pool pool' ∅ := by
  refine ⟨fun h => ?_, fun o t => ?_, hChildren, hObjects⟩
  · exact hTxs h
  · rw [hNext]
    simp

theorem refl (pool : CTxMemPool) : Shrunk pool pool ∅ :=
  of_txs (fun _ => rfl) rfl (fun _ => Finset.Subset.refl _) rfl

theorem trans (h : Shrunk pool pool' gone) (h' : Shrunk pool' pool'' gone') :
    Shrunk pool pool'' (gone ∪ gone') := by
  refine ⟨fun k => ?_, fun o t => ?_, fun k => (h'.children k).trans (h.children k),
    h'.objects.trans h.objects⟩
  · rw [h'.txs, h.txs]
    by_cases hk : k ∈ gone
    · simp [hk]
    · simp [hk]
  · rw [h'.nextTx, h.nextTx, and_assoc]
    refine and_congr_right fun _ => ?_
    constructor
    · rintro ⟨hFirst, hSecond⟩ r hr t' ht'
      by_cases hGone : r ∈ gone
      · exact hFirst r hGone t' ht'
      · have hr' : r ∈ gone' := (mem_union.mp hr).resolve_left hGone
        refine hSecond r hr' t' ?_
        rwa [h.txs, if_neg hGone]
    · intro hAll
      refine ⟨fun r hr => hAll r (mem_union_left _ hr), fun r hr t' ht' => ?_⟩
      rw [h.txs] at ht'
      split at ht'
      case isTrue => cases ht'
      case isFalse => exact hAll r (mem_union_right _ hr) t' ht'

variable {α : Type} {f : CTxMemPool → α → CTxMemPool}

/-- A loop of removals, each of what its element says. -/
theorem foldl {g : α → Finset UInt256}
    (hStep : ∀ pool x, Shrunk pool (f pool x) (g x)) (l : List α) (pool : CTxMemPool) :
    Shrunk pool (l.foldl f pool) (l.foldr (fun x gone => g x ∪ gone) ∅) := by
  induction l generalizing pool with
  | nil => exact refl pool
  | cons x l ih => exact (hStep pool x).trans (ih (f pool x))

/-- A loop whose turns remove nothing. -/
theorem foldl_none (hStep : ∀ pool x, Shrunk pool (f pool x) ∅) (l : List α) (pool : CTxMemPool) :
    Shrunk pool (l.foldl f pool) ∅ := by
  induction l generalizing pool with
  | nil => exact refl pool
  | cons x l ih => exact (hStep pool x).trans (ih (f pool x))

theorem hashes (h : Shrunk pool pool' gone) : pool'.hashes = pool.hashes \ gone := by
  ext k
  rw [mem_sdiff, mem_hashes_iff_txAt, mem_hashes_iff_txAt]
  simp only [h.txs]
  by_cases hk : k ∈ gone
  · simp [hk]
  · simp [hk]

theorem tx_old (h : Shrunk pool pool' gone) {k : UInt256} {t : CTransaction}
    (ht : pool'.txAt k = some t) : pool.txAt k = some t ∧ k ∉ gone := by
  rw [h.txs] at ht
  split at ht
  case isTrue => cases ht
  case isFalse hNot => exact ⟨ht, hNot⟩

theorem keyed (h : Shrunk pool pool' gone) (hKeyed : pool.Keyed) : pool'.Keyed := fun k t ht =>
  hKeyed k t (h.tx_old ht).1

theorem nextTxExact (h : Shrunk pool pool' gone) (hKeyed : pool.Keyed) (hNext : pool.NextTxExact) :
    pool'.NextTxExact := by
  have hOld := hNext
  rw [nextTxExact_iff] at hOld ⊢
  intro o t
  rw [h.nextTx, hOld, h.txs]
  constructor
  · rintro ⟨⟨ht, ho⟩, hKept⟩
    refine ⟨?_, ho⟩
    split
    case isTrue hGone => exact absurd ho (hKept t.hash hGone t ht)
    case isFalse => exact ht
  · rintro ⟨ht, ho⟩
    split at ht
    case isTrue => cases ht
    case isFalse hNot =>
      refine ⟨⟨ht, ho⟩, fun r hr t' ht' ho' => hNot ?_⟩
      -- the output has one spender, so what is gone is the transaction itself
      rwa [hNext.spender_unique hKeyed ht ht' ho ho']

end Shrunk

theorem modifyEach_shrunk (its : Finset UInt256)
    (hTx : ∀ e, (f e).tx = e.tx) : Shrunk pool (pool.modifyEach its f) ∅ := by
  refine .of_txs (fun h => ?_) (by rw [modifyEach_eq]) (fun h => ?_) (by rw [modifyEach_eq]; rfl)
  · unfold txAt
    rw [modifyEach_mapTx, Option.map_map]
    congr 1
    funext e
    split
    · exact hTx e
    · rfl
  · rw [children_congr (modifyEach_mapLinks its f)]

theorem updateChild_shrunk (it child : UInt256) : Shrunk pool (pool.updateChild it child false) ∅ := by
  refine .of_txs (fun _ => rfl) rfl (fun h => ?_) rfl
  rw [updateChild_children]
  split
  · exact erase_subset _ _
  · exact Finset.Subset.refl _

theorem updateParent_shrunk (it parent : UInt256) (add : Bool) :
    Shrunk pool (pool.updateParent it parent add) ∅ := by
  refine .of_txs (fun _ => rfl) rfl (fun h => ?_) rfl
  rw [updateParent_children]

theorem removeUnchecked_shrunk (it : UInt256) : Shrunk pool (pool.removeUnchecked it) {it} := by
  obtain ⟨hTx, -, hNext, -⟩ := pool.removeUnchecked_spec it
  refine ⟨fun h => ?_, fun o t => ?_, fun h => ?_, ?_⟩
  · unfold txAt
    rw [hTx, if_congr mem_singleton rfl rfl]
    split <;> rfl
  · rw [hNext]
    simp only [mem_singleton, forall_eq, txAt_eq_some, spentBy, forall_exists_index, and_imp,
      forall_apply_eq_imp_iff₂]
  · by_cases hIn : it ∈ pool.hashes
    · rw [(removeUnchecked_links hIn h).2]
      split
      · exact empty_subset _
      · exact Finset.Subset.refl _
    · have hNone : pool.mapTx[it]? = none := by
        rwa [mem_hashes, not_isSome_iff_eq_none] at hIn
      unfold removeUnchecked
      rw [hNone]
  · unfold removeUnchecked
    cases pool.mapTx[it]? <;> rfl

theorem updateAncestorsOf_shrunk (it : UInt256) (setAncestors : Finset UInt256) :
    Shrunk pool (pool.updateAncestorsOf false it setAncestors) ∅ := by
  have hLinks := Shrunk.foldl_none (fun pool p => @updateChild_shrunk pool p it)
    (inOrder (pool.getMemPoolParents it)) pool
  refine hLinks.trans (modifyEach_shrunk setAncestors ?_)
  exact fun _ => rfl

theorem updateForRemoveFromMempool_shrunk (stage : Finset UInt256) (updateDescendants : Bool) :
    Shrunk pool (pool.updateForRemoveFromMempool stage updateDescendants) ∅ := by
  have hDown : Shrunk pool
      (if updateDescendants then pool.updateDescendantsForRemoval stage else pool) ∅ := by
    split
    · refine Shrunk.foldl_none (fun pool r => modifyEach_shrunk _ ?_) _ pool
      exact fun _ => rfl
    · exact .refl pool
  unfold updateForRemoveFromMempool
  generalize (if updateDescendants then pool.updateDescendantsForRemoval stage else pool) = down
    at hDown
  have hUp : Shrunk down (down.updateAncestorsForRemoval stage) ∅ := by
    refine Shrunk.foldl_none (fun pool r => ?_) _ down
    split
    · exact updateAncestorsOf_shrunk r _
    · exact .refl pool
  have hSide : ∀ side : CTxMemPool,
      Shrunk side ((inOrder stage).foldl updateChildrenForRemoval side) ∅ := fun side =>
    Shrunk.foldl_none (fun pool r =>
      Shrunk.foldl_none (fun pool c => updateParent_shrunk c r false) _ pool) _ side
  exact (hDown.trans hUp).trans (hSide _)

/-- **A removal from any pool.** -/
theorem removeStaged_shrunk (pool : CTxMemPool) (stage : Finset UInt256)
    (updateDescendants : Bool) :
    Shrunk pool (pool.removeStaged stage updateDescendants) stage := by
  have hBoth := (@updateForRemoveFromMempool_shrunk pool stage updateDescendants).trans
    (Shrunk.foldl (fun pool it => removeUnchecked_shrunk it) (inOrder stage) _)
  have hAll : ∅ ∪ (inOrder stage).foldr (fun x gone => {x} ∪ gone) ∅ = stage := by
    rw [empty_union]
    conv_rhs => rw [← toFinset_inOrder stage]
    generalize inOrder stage = l
    induction l with
    | nil => rfl
    | cons x l ih => rw [List.foldr_cons, ih, List.toFinset_cons, insert_eq]
  rwa [hAll] at hBoth

/-- The walk over descendants leaves no way but by links to children. -/
theorem reaches_of_mem_calculateAllDescendants {roots : Finset UInt256} {d : UInt256}
    (h : d ∈ pool.calculateAllDescendants roots) :
    ∃ r ∈ roots, Reaches pool.getMemPoolChildren r d := by
  have hList : ∀ (l : List UInt256) (known : Finset UInt256), (∀ r ∈ l, r ∈ roots) →
      (∀ d ∈ known, ∃ r ∈ roots, Reaches pool.getMemPoolChildren r d) →
      ∀ d ∈ l.foldl (fun setDescendants it => pool.calculateDescendants it setDescendants) known,
        ∃ r ∈ roots, Reaches pool.getMemPoolChildren r d := by
    intro l
    induction l with
    | nil => exact fun _ _ hKnown => hKnown
    | cons it l ih =>
      intro known hRoots hKnown
      refine ih _ (fun r hr => hRoots r (List.mem_cons_of_mem it hr)) ?_
      refine walk_forall ?_ (fun _ _ _ hNone => by cases hNone) ?_ hKnown
      · rintro z ⟨r, hr, hPath⟩ y hy
        exact ⟨r, hr, hPath.tail hy⟩
      · intro y hy
        split at hy
        case isTrue => exact absurd hy (notMem_empty y)
        case isFalse =>
          rw [mem_singleton.mp hy]
          exact ⟨it, hRoots it List.mem_cons_self, .refl⟩
  exact hList (inOrder roots) ∅ (fun r hr => mem_inOrder.mp hr)
    (fun d hd => absurd hd (notMem_empty d)) d h

/-! ## Adding -/

/-- **One transaction is added**, unless its hash is there already. -/
structure Grown (pool pool' : CTxMemPool) (tx : CTransaction) : Prop where
  txs : ∀ h, pool'.txAt h = if h = tx.hash then (pool.txAt h).or (some tx) else pool.txAt h
  nextTx : ∀ o, pool'.mapNextTx[o]? =
    (pool.mapNextTx[o]?).or (if o ∈ spentBy tx then some tx else none)
  objects : pool'.objects = pool.objects

/-- A new entry, before any links. -/
theorem enterEntry_grown (entry : CTxMemPoolEntry) :
    Grown pool (pool.enterEntry entry) entry.tx := by
  refine ⟨fun h => ?_, enterEntry_mapNextTx entry, ?_⟩
  · unfold enterEntry txAt
    dsimp only
    have hInsert : ((pool.mapTx.insertIfNew entry.tx.hash entry)[h]?).map CTxMemPoolEntry.tx =
        if h = entry.tx.hash then ((pool.mapTx[h]?).map CTxMemPoolEntry.tx).or (some entry.tx)
        else (pool.mapTx[h]?).map CTxMemPoolEntry.tx := by
      rw [Std.ExtTreeMap.getElem?_insertIfNew]
      by_cases hEq : h = entry.tx.hash
      · subst hEq
        cases hOld : pool.mapTx[entry.tx.hash]? with
        | none =>
          have hNot : entry.tx.hash ∉ pool.mapTx := by
            rw [← Std.ExtTreeMap.isSome_getElem?_iff_mem, hOld]
            simp
          simp [hNot]
        | some e =>
          have hIn : entry.tx.hash ∈ pool.mapTx := by
            rw [← Std.ExtTreeMap.isSome_getElem?_iff_mem, hOld]
            rfl
          simp [hIn]
      · simp [hEq, Ne.symm hEq]
    rw [← hInsert]
    split
    · rfl
    · unfold modify
      rw [Map.getElem?_modify_eq, Option.map_map]
      split <;> rfl
  · unfold enterEntry objects
    dsimp only
    split <;> rfl

/-- Links to parents and children are no part of the contents. -/
structure SameContents (pool pool' : CTxMemPool) : Prop where
  txs : ∀ h, pool'.txAt h = pool.txAt h
  nextTx : pool'.mapNextTx = pool.mapNextTx
  objects : pool'.objects = pool.objects

theorem SameContents.trans (h : SameContents pool pool') (h' : SameContents pool' pool'') :
    SameContents pool pool'' :=
  ⟨fun k => (h'.txs k).trans (h.txs k), h'.nextTx.trans h.nextTx, h'.objects.trans h.objects⟩

theorem SameContents.foldl {α : Type} {f : CTxMemPool → α → CTxMemPool}
    (hStep : ∀ pool x, SameContents pool (f pool x)) (l : List α) (pool : CTxMemPool) :
    SameContents pool (l.foldl f pool) := by
  induction l generalizing pool with
  | nil => exact ⟨fun _ => rfl, rfl, rfl⟩
  | cons x l ih => exact (hStep pool x).trans (ih (f pool x))

theorem SameContents.grown {tx : CTransaction} (h : Grown pool pool' tx)
    (h' : SameContents pool' pool'') : Grown pool pool'' tx := by
  refine ⟨fun k => ?_, fun o => ?_, h'.objects.trans h.objects⟩
  · rw [h'.txs, h.txs]
  · rw [h'.nextTx, h.nextTx]

theorem modify_sameContents (it : UInt256)
    (hTx : ∀ e, (f e).tx = e.tx) : SameContents pool (pool.modify it f) := by
  refine ⟨fun h => ?_, rfl, rfl⟩
  unfold txAt modify
  rw [Map.getElem?_modify_eq, Option.map_map]
  congr 1
  funext e
  split
  · exact hTx e
  · rfl

/-- **An addition to any pool.** -/
theorem addUnchecked_grown (pool : CTxMemPool) (entry : CTxMemPoolEntry)
    (setAncestors : Finset UInt256) :
    Grown pool (pool.addUnchecked entry setAncestors) entry.tx := by
  have hLink : ∀ pool : CTxMemPool, SameContents pool (pool.linkParents entry.tx) := by
    refine fun pool => SameContents.foldl (fun pool phash => ?_) _ pool
    split <;> exact ⟨fun _ => rfl, rfl, rfl⟩
  have hAncestors : ∀ pool : CTxMemPool,
      SameContents pool (pool.updateAncestorsOf true entry.tx.hash setAncestors) := by
    intro pool
    refine (SameContents.foldl (fun pool p => ?_) _ pool).trans
      (SameContents.foldl (fun pool it => modify_sameContents it ?_) _ _)
    · exact ⟨fun _ => rfl, rfl, rfl⟩
    · exact fun _ => rfl
  have hEntry : ∀ pool : CTxMemPool,
      SameContents pool (pool.updateEntryForAncestors entry.tx.hash setAncestors) := fun pool =>
    modify_sameContents _ fun _ => rfl
  exact ((hLink _).trans ((hAncestors _).trans (hEntry _))).grown (enterEntry_grown entry)

namespace Grown

variable {tx : CTransaction}

theorem tx_new (h : Grown pool pool' tx) (hFresh : tx.hash ∉ pool.hashes) :
    pool'.txAt tx.hash = some tx := by
  have hNone : pool.txAt tx.hash = none := by
    rw [eq_none_iff_forall_ne_some]
    intro t ht
    exact hFresh (mem_hashes_iff_txAt.mpr ⟨t, ht⟩)
  rw [h.txs, if_pos rfl, hNone]
  rfl

variable {k : UInt256} {t : CTransaction}

theorem tx_old (h : Grown pool pool' tx)
    (ht : pool'.txAt k = some t) : pool.txAt k = some t ∨ (k = tx.hash ∧ t = tx) := by
  rw [h.txs] at ht
  split at ht
  case isTrue hEq =>
    cases hOld : pool.txAt k with
    | none =>
      rw [hOld] at ht
      exact .inr ⟨hEq, (some.inj ht).symm⟩
    | some t' =>
      rw [hOld] at ht
      exact .inl ht
  case isFalse => exact .inl ht

theorem tx_kept (h : Grown pool pool' tx) (ht : pool.txAt k = some t) : pool'.txAt k = some t := by
  rw [h.txs, ht]
  split <;> rfl

theorem keyed (h : Grown pool pool' tx) (hKeyed : pool.Keyed) : pool'.Keyed := by
  intro k t ht
  rcases h.tx_old ht with hOld | ⟨hEq, rfl⟩
  · exact hKeyed k t hOld
  · exact hEq.symm

theorem nextTxExact (h : Grown pool pool' tx) (hFresh : tx.hash ∉ pool.hashes)
    (hNext : pool.NextTxExact) (hFree : pool.NoConflict tx) : pool'.NextTxExact := by
  rw [nextTxExact_iff] at hNext ⊢
  have hNone : ∀ o ∈ spentBy tx, pool.mapNextTx[o]? = none := by
    intro o ho
    obtain ⟨i, hi, rfl⟩ := List.mem_map.mp ho
    exact hFree i hi
  intro o t
  rw [h.nextTx]
  by_cases ho : o ∈ spentBy tx
  · -- an output of the new transaction: it had no spender
    rw [hNone o ho, if_pos ho]
    constructor
    · intro hEq
      rw [← some.inj hEq]
      exact ⟨h.tx_new hFresh, ho⟩
    · rintro ⟨ht, hSpent⟩
      rcases h.tx_old ht with hOld | ⟨-, rfl⟩
      · have hSpender := (hNext o t).mpr ⟨hOld, hSpent⟩
        rw [hNone o ho] at hSpender
        cases hSpender
      · rfl
  · rw [if_neg ho, or_none, hNext]
    constructor
    · rintro ⟨ht, hSpent⟩
      exact ⟨h.tx_kept ht, hSpent⟩
    · rintro ⟨ht, hSpent⟩
      rcases h.tx_old ht with hOld | ⟨-, rfl⟩
      · exact ⟨hOld, hSpent⟩
      · exact absurd hSpent ho

end Grown

end CTxMemPool

end Electrum
