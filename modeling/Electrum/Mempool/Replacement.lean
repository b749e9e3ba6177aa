import Electrum.Mempool.Objects
import Electrum.Mempool.Prioritise

/-!
# Replacing transactions

An acceptance may replace transactions of the pool that spend the same outputs.  The conflicts are
found through `mapNextTx`, what depends on them through the links, and the fees are compared before
anything is removed.

Main results:
* `acceptToMemoryPool_spendersExact` — no acceptance, successful or not, lets two transactions spend
  one output, and `mapNextTx` stays exact
* `acceptToMemoryPool_replacement` — what a successful acceptance evicts, and at what fee
* `replacement_leaves_child` — where a link is missing, a child stays behind
-/

namespace Electrum

open CTxMemPool Electrum.Except Finset Relation

namespace CTxMemPool

variable {pool pool' : CTxMemPool}

/-- **`mapNextTx` is the map from outputs to spenders**, and entries stand under their hashes. -/
structure SpendersExact (pool : CTxMemPool) : Prop where
  keyed : pool.Keyed
  nextTx : pool.NextTxExact

/-- No two transactions spend the same output. -/
def NoDoubleSpend (pool : CTxMemPool) : Prop :=
  ∀ h h' t t', pool.txAt h = some t → pool.txAt h' = some t' →
    ∀ o, o ∈ spentBy t → o ∈ spentBy t' → h = h'

theorem SpendersExact.noDoubleSpend (h : pool.SpendersExact) : pool.NoDoubleSpend :=
  fun _ _ _ _ ht ht' _ ho ho' => h.nextTx.spender_unique h.keyed ht ht' ho ho'

theorem SpendersExact.shrunk {gone : Finset UInt256} (h : pool.SpendersExact)
    (hShrunk : Shrunk pool pool' gone) : pool'.SpendersExact :=
  ⟨hShrunk.keyed h.keyed, hShrunk.nextTxExact h.keyed h.nextTx⟩

/-- **The links are the spending relation.** -/
structure LinksExact (pool : CTxMemPool) : Prop where
  parents : ∀ a b, a ∈ pool.getMemPoolParents b ↔ pool.SpendsFrom a b
  children : ∀ a b, b ∈ pool.getMemPoolChildren a ↔ pool.SpendsFrom a b

theorem LinksExact.stays (h : pool.LinksExact) (x : UInt256) (_ : x ∈ pool.hashes) :
    pool.getMemPoolChildren x ⊆ pool.hashes := fun y hy =>
  (spendsFrom_within ((h.children x y).mp hy)).2

/-! ## The walk over descendants -/

theorem subset_calculateDescendants (it : UInt256) (known : Finset UInt256) :
    known ⊆ pool.calculateDescendants it known :=
  subset_walk _ _ _ _ _

theorem mem_calculateDescendants_self {it : UInt256} (hIt : it ∈ pool.hashes)
    (known : Finset UInt256) : it ∈ pool.calculateDescendants it known := by
  by_cases hKnown : it ∈ known
  · exact subset_calculateDescendants it known hKnown
  · -- the pool is not empty, so the walk has a first turn
    have hPos : 0 < pool.mapTx.size := by
      rw [← card_hashes]
      exact card_pos.mpr ⟨it, hIt⟩
    obtain ⟨fuel, hFuel⟩ := Nat.exists_eq_succ_of_ne_zero hPos.ne'
    unfold calculateDescendants
    rw [if_neg hKnown, hFuel]
    exact mem_walk_start _ _ fuel it known

/-- The walk sees where it starts, whatever the links are. -/
theorem subset_calculateAllDescendants {roots : Finset UInt256} (hRoots : roots ⊆ pool.hashes) :
    roots ⊆ pool.calculateAllDescendants roots := by
  have hList := foldl_invariant
    (f := fun setDescendants it => pool.calculateDescendants it setDescendants)
    (fun done known => ∀ r ∈ done, r ∈ known) (inOrder roots) (b := (∅ : Finset UInt256))
    (fun r hr => by cases hr) (by
      intro done it rest known hSplit hDone r hr
      rcases List.mem_append.mp hr with hOld | hNew
      · exact subset_calculateDescendants it known (hDone r hOld)
      · rw [List.mem_singleton.mp hNew]
        refine mem_calculateDescendants_self (hRoots ?_) known
        rw [← mem_inOrder, hSplit]
        simp)
  exact fun r hr => hList r (mem_inOrder.mpr hr)

/-- **The walk sees what the links lead to**, where they do not leave the pool. -/
theorem mem_calculateAllDescendants (hStays : ∀ x ∈ pool.hashes, pool.getMemPoolChildren x ⊆ pool.hashes)
    {roots : Finset UInt256} (hRoots : roots ⊆ pool.hashes) (d : UInt256) :
    d ∈ pool.calculateAllDescendants roots ↔ ∃ r ∈ roots, Reaches pool.getMemPoolChildren r d := by
  have hWithin : ∀ r ∈ roots, ∀ d, Reaches pool.getMemPoolChildren r d → d ∈ pool.hashes := by
    intro r hr d hPath
    induction hPath with
    | refl => exact hRoots hr
    | tail _ hEdge ih => exact hStays _ ih hEdge
  have hList := foldl_invariant
    (f := fun setDescendants it => pool.calculateDescendants it setDescendants)
    (fun done known => ∀ d, d ∈ known ↔ ∃ r ∈ done, Reaches pool.getMemPoolChildren r d)
    (inOrder roots) (b := (∅ : Finset UInt256)) (fun d => by simp) (by
      intro done it rest known hSplit hKnown d
      have hMem : ∀ r ∈ done ++ [it], r ∈ roots := by
        intro r hr
        rw [← mem_inOrder, hSplit, List.append_cons]
        exact List.mem_append_left _ hr
      have hIt : it ∈ roots := hMem it (by simp)
      -- what is known contains its own descendants, so the walk need not enter it
      have hClosed : ∀ z ∈ known, ∀ y ∈ pool.getMemPoolChildren z, y ∈ known := by
        intro z hz y hy
        obtain ⟨r, hr, hPath⟩ := (hKnown z).mp hz
        exact (hKnown y).mpr ⟨r, hr, hPath.tail hy⟩
      unfold calculateDescendants
      rw [mem_walk hStays ?_ ?_ (fun z hz y hy => .inl (hClosed z hz y hy)) card_hashes.le, hKnown]
      · simp only [List.mem_append, List.mem_singleton]
        split
        case isTrue hOld =>
          obtain ⟨r, hr, hPath⟩ := (hKnown it).mp hOld
          constructor
          · rintro (⟨r, hr, hPath⟩ | ⟨x, hx, -⟩)
            · exact ⟨r, .inl hr, hPath⟩
            · cases hx
          · rintro ⟨x, hx | rfl, hBelow⟩
            · exact .inl ⟨x, hx, hBelow⟩
            · exact .inl ⟨r, hr, hPath.trans hBelow⟩
        case isFalse =>
          simp only [mem_singleton, exists_eq_left, or_and_right, exists_or]
      · split
        · exact empty_subset _
        · exact singleton_subset_iff.mpr (hRoots hIt)
      · intro z hz
        obtain ⟨r, hr, hPath⟩ := (hKnown z).mp hz
        exact hWithin r (hMem r (List.mem_append_left _ hr)) z hPath)
  rw [calculateAllDescendants, hList]
  simp only [mem_inOrder]

end CTxMemPool

namespace AcceptEnv

variable {env : AcceptEnv} {pool entered : CTxMemPool} {tx : CTransaction}

/-! ## What the checks have found when they pass -/

/-- The conflicts are all there. -/
theorem findConflicts_ok {vin : List CTxIn} {setConflicts result : Finset UInt256}
    (h : env.findConflicts pool vin setConflicts = .ok result) :
    setConflicts ⊆ result ∧ ∀ i ∈ vin, ∀ t : CTransaction,
      pool.mapNextTx[i.prevout.key]? = some t → t.hash ∈ result := by
  induction vin generalizing setConflicts with
  | nil =>
    cases h
    exact ⟨Finset.Subset.refl _, fun i hi => by cases hi⟩
  | cons txin vin ih =>
    rw [findConflicts] at h
    cases hNext : pool.mapNextTx[txin.prevout.key]? with
    | none =>
      rw [hNext] at h
      obtain ⟨hSub, hAll⟩ := ih h
      refine ⟨hSub, fun i hi t ht => ?_⟩
      rcases List.mem_cons.mp hi with rfl | hi
      · rw [hNext] at ht
        cases ht
      · exact hAll i hi t ht
    | some txConflicting =>
      rw [hNext] at h
      dsimp only at h
      -- in the set already, or put there
      have hFound : ∃ between, setConflicts ⊆ between ∧ txConflicting.hash ∈ between ∧
          env.findConflicts pool vin between = .ok result := by
        split at h
        case isTrue hIn => exact ⟨setConflicts, Finset.Subset.refl _, hIn, h⟩
        case isFalse =>
          split at h
          case isTrue =>
            exact ⟨_, subset_insert _ _, mem_insert_self _ _, h⟩
          case isFalse => cases h
      obtain ⟨between, hBetween, hIn, hRest⟩ := hFound
      obtain ⟨hSub, hAll⟩ := ih hRest
      refine ⟨hBetween.trans hSub, fun i hi t ht => ?_⟩
      rcases List.mem_cons.mp hi with rfl | hi
      · rw [hNext] at ht
        rw [← Option.some.inj ht]
        exact hSub hIn
      · exact hAll i hi t ht

theorem checkLoose_ok (h : env.checkLoose tx = .ok ()) :
    tx.isCoinBase = false ∧ tx.isCoinStake = false := by
  unfold checkLoose at h
  dsimp only at h
  split at h
  case isTrue => cases h
  case isFalse =>
    obtain ⟨_, -, h⟩ := bind_eq_ok.mp h
    obtain ⟨_, -, h⟩ := bind_eq_ok.mp h
    obtain ⟨_, -, h⟩ := bind_eq_ok.mp h
    obtain ⟨_, -, h⟩ := bind_eq_ok.mp h
    obtain ⟨_, hBase, h⟩ := bind_eq_ok.mp h
    obtain ⟨_, hStake, -⟩ := bind_eq_ok.mp h
    have hBase := passes_eq_ok.mp hBase
    have hStake := passes_eq_ok.mp hStake
    exact ⟨by simpa using hBase, by simpa using hStake⟩

theorem checkEntry_ok {setConflicts : Finset UInt256}
    (h : env.checkEntry pool tx = .ok setConflicts) :
    (tx.isCoinBase = false ∧ tx.isCoinStake = false) ∧
      env.findConflicts pool tx.vin ∅ = .ok setConflicts := by
  obtain ⟨_, hLoose, h⟩ := bind_eq_ok.mp h
  obtain ⟨_, -, h⟩ := bind_eq_ok.mp h
  obtain ⟨found, hFound, h⟩ := bind_eq_ok.mp h
  obtain ⟨_, -, h⟩ := bind_eq_ok.mp h
  obtain ⟨_, -, h⟩ := bind_eq_ok.mp h
  cases h
  exact ⟨checkLoose_ok hLoose, hFound⟩

/-- The entries that would be replaced are those conflicts that are in the pool. -/
theorem checkConflicting_fold {newFeeRate : Int} {setConflicts : Finset UInt256}
    {st : Finset UInt256 × Finset UInt256 × Int}
    (h : (inOrder setConflicts).foldlM (checkConflicting pool newFeeRate) (∅, ∅, 0) = .ok st) :
    st.1 = setConflicts ∩ pool.hashes := by
  have hFold := foldlM_except_invariant
    (fun done (st : Finset UInt256 × Finset UInt256 × Int) => st.1 = done.toFinset ∩ pool.hashes)
    (inOrder setConflicts) (by simp) (by
      intro done hash rest st st' _ hDone hStep
      unfold checkConflicting at hStep
      rw [List.toFinset_append, union_inter_distrib_right, ← hDone]
      cases hEntry : pool.mapTx[hash]? with
      | none =>
        rw [hEntry] at hStep
        cases hStep
        have hNot : hash ∉ pool.hashes := by
          rw [mem_hashes, hEntry]
          exact Bool.false_ne_true
        simp [hNot]
      | some entry =>
        rw [hEntry] at hStep
        dsimp only at hStep
        split at hStep
        case isTrue => cases hStep
        case isFalse =>
          cases hStep
          simp [mem_hashes_of_some hEntry]) h
  rwa [toFinset_inOrder] at hFold

/-- **What is paid for a replacement.** -/
theorem checkReplacement_ok {setConflicts allConflicting : Finset UInt256}
    (h : env.checkReplacement pool tx setConflicts = .ok allConflicting) :
    allConflicting = pool.calculateAllDescendants (setConflicts ∩ pool.hashes) ∧
      (allConflicting ≠ ∅ → ∑ it ∈ allConflicting, pool.valueAt it (·.getModifiedFee) +
        env.minRelayFee (env.newEntry pool tx).nTxSize ≤ env.modifiedFees pool tx) := by
  unfold checkReplacement at h
  split at h
  case isTrue hNone =>
    cases h
    rw [hNone]
    exact ⟨rfl, fun hSome => absurd rfl hSome⟩
  case isFalse =>
    obtain ⟨⟨found, parents, count⟩, hFold, h⟩ := bind_eq_ok.mp h
    obtain ⟨_, -, h⟩ := bind_eq_ok.mp h
    obtain ⟨_, -, h⟩ := bind_eq_ok.mp h
    obtain ⟨_, -, h⟩ := bind_eq_ok.mp h
    obtain ⟨_, hRelay, h⟩ := bind_eq_ok.mp h
    cases h
    have hFound : found = setConflicts ∩ pool.hashes := checkConflicting_fold hFold
    rw [← hFound]
    have hRelay := of_decide_eq_true (passes_eq_ok.mp hRelay)
    exact ⟨rfl, fun _ => by linarith⟩

theorem checkPolicy_ok {fLimitFree : Bool} {nAbsurdFee : Int}
    {setConflicts setAncestors allConflicting : Finset UInt256}
    (h : env.checkPolicy pool tx fLimitFree nAbsurdFee setConflicts =
      .ok (setAncestors, allConflicting)) :
    pool.calculateMemPoolAncestors (env.newEntry pool tx) env.limits true = .ok setAncestors ∧
      Disjoint setAncestors setConflicts ∧
      env.checkReplacement pool tx setConflicts = .ok allConflicting := by
  obtain ⟨_, -, h⟩ := bind_eq_ok.mp h
  cases hAncestors : pool.calculateMemPoolAncestors (env.newEntry pool tx) env.limits true with
  | error text =>
    rw [hAncestors] at h
    cases h
  | ok ancestors =>
    rw [hAncestors] at h
    obtain ⟨_, hPure, h⟩ := bind_eq_ok.mp h
    cases hPure
    obtain ⟨_, hApart, h⟩ := bind_eq_ok.mp h
    obtain ⟨conflicting, hReplacement, h⟩ := bind_eq_ok.mp h
    dsimp only at h
    split at h
    case isTrue => cases h
    case isFalse =>
      cases h
      exact ⟨rfl, of_decide_eq_true (passes_eq_ok.mp hApart), hReplacement⟩

/-- **What an acceptance can do.** It is rejected before the objects are entered, or after, or every
check passes; then the size limit decides, unless it is overridden. -/
theorem acceptToMemoryPool_cases (env : AcceptEnv) (pool : CTxMemPool) (tx : CTransaction)
    (fLimitFree fOverrideMempoolLimit : Bool) (nAbsurdFee : Int) :
    (∃ why left, env.acceptToMemoryPool pool tx fLimitFree fOverrideMempoolLimit nAbsurdFee =
        (left, some why) ∧ EntersObjects pool left tx) ∨
    ∃ setConflicts entered setAncestors allConflicting,
      env.checkEntry pool tx = .ok setConflicts ∧ EntersObjects pool entered tx ∧
      env.checkPolicy entered tx fLimitFree nAbsurdFee setConflicts =
        .ok (setAncestors, allConflicting) ∧
      (fOverrideMempoolLimit = true →
        env.acceptToMemoryPool pool tx fLimitFree fOverrideMempoolLimit nAbsurdFee =
          (env.replaceAndAdd entered tx setAncestors allConflicting, none)) ∧
      (env.acceptToMemoryPool pool tx fLimitFree fOverrideMempoolLimit nAbsurdFee).1 =
        if fOverrideMempoolLimit then env.replaceAndAdd entered tx setAncestors allConflicting
        else env.limited (env.replaceAndAdd entered tx setAncestors allConflicting) := by
  unfold acceptToMemoryPool
  cases hEntry : env.checkEntry pool tx with
  | error why => exact .inl ⟨why, pool, rfl, .refl pool tx⟩
  | ok setConflicts =>
    cases hEnter : env.enterObjects pool tx with
    | error why => exact .inl ⟨why, pool, rfl, .refl pool tx⟩
    | ok entered =>
      have hEnters := enterObjects_entered hEnter
      dsimp only
      cases hPolicy : env.checkPolicy entered tx fLimitFree nAbsurdFee setConflicts with
      | error why => exact .inl ⟨why, entered, rfl, hEnters⟩
      | ok sets =>
        obtain ⟨setAncestors, allConflicting⟩ := sets
        refine .inr ⟨setConflicts, entered, setAncestors, allConflicting, rfl, hEnters, hPolicy, ?_⟩
        cases fOverrideMempoolLimit with
        | true => exact ⟨fun _ => rfl, rfl⟩
        | false => exact ⟨fun hFalse => absurd hFalse Bool.false_ne_true, rfl⟩

/-! ## The spenders -/

theorem EntersObjects.spendersExact (h : EntersObjects pool entered tx)
    (hExact : pool.SpendersExact) : entered.SpendersExact := by
  refine ⟨fun k t ht => ?_, ?_⟩
  · rw [h.txAt] at ht
    exact hExact.keyed k t ht
  · have hNext := hExact.nextTx
    rw [nextTxExact_iff] at hNext ⊢
    intro o t
    rw [h.nextTx, h.txAt]
    exact hNext o t

theorem EntersObjects.hashes (h : EntersObjects pool entered tx) : entered.hashes = pool.hashes := by
  unfold CTxMemPool.hashes
  rw [h.entries]

/-- Once the conflicts are gone, the outputs are free. -/
theorem replaceAndAdd_spendersExact (hExact : pool.SpendersExact)
    {setConflicts setAncestors allConflicting : Finset UInt256}
    (hEntry : env.checkEntry pool tx = .ok setConflicts) (hEnters : EntersObjects pool entered tx)
    (hReplaced : allConflicting = entered.calculateAllDescendants (setConflicts ∩ entered.hashes)) :
    (env.replaceAndAdd entered tx setAncestors allConflicting).SpendersExact := by
  have hEntered := hEnters.spendersExact hExact
  have hShrunk := removeStaged_shrunk entered allConflicting false
  have hGrown : CTxMemPool.Grown (entered.removeStaged allConflicting false)
      (env.replaceAndAdd entered tx setAncestors allConflicting) tx :=
    addUnchecked_grown _ (env.newEntry entered tx) setAncestors
  have hLeft := hEntered.shrunk hShrunk
  have hFresh : tx.hash ∉ (entered.removeStaged allConflicting false).hashes := by
    rw [hShrunk.hashes, hEnters.hashes]
    exact fun hIn => checkEntry_fresh hEntry (mem_sdiff.mp hIn).1
  have hFree : (entered.removeStaged allConflicting false).NoConflict tx := by
    intro i hi
    rw [Option.eq_none_iff_forall_ne_some]
    intro t ht
    obtain ⟨hOld, hKept⟩ := (hShrunk.nextTx _ t).mp ht
    obtain ⟨hThere, hSpent⟩ := (nextTxExact_iff.mp hEntered.nextTx _ t).mp hOld
    refine hKept t.hash ?_ t hThere hSpent
    rw [hReplaced]
    refine subset_calculateAllDescendants inter_subset_right
      (mem_inter.mpr ⟨?_, mem_hashes_iff_txAt.mpr ⟨t, hThere⟩⟩)
    refine (findConflicts_ok (checkEntry_ok hEntry).2).2 i hi t ?_
    rwa [← hEnters.nextTx]
  exact ⟨hGrown.keyed hLeft.keyed, hGrown.nextTxExact hFresh hLeft.nextTx hFree⟩

theorem limited_shrunk (env : AcceptEnv) (pool : CTxMemPool) :
    ∃ gone, CTxMemPool.Shrunk pool (env.limited pool) gone := by
  obtain ⟨gone, hTrim⟩ := trimLoop_shrunk env.eviction env.maxMempool
    (pool.expire (env.time - env.mempoolExpiry)).mapTx.size
    (pool.expire (env.time - env.mempoolExpiry))
  exact ⟨_, (expire_shrunk pool _).trans hTrim⟩

/-- **Every acceptance**, successful or not, keeps `mapNextTx` exact. -/
theorem acceptToMemoryPool_spendersExact (hExact : pool.SpendersExact)
    (fLimitFree fOverrideMempoolLimit : Bool) (nAbsurdFee : Int) :
    (env.acceptToMemoryPool pool tx fLimitFree fOverrideMempoolLimit nAbsurdFee).1.SpendersExact := by
  rcases env.acceptToMemoryPool_cases pool tx fLimitFree fOverrideMempoolLimit nAbsurdFee with
    ⟨why, left, hEq, hEnters⟩ |
    ⟨setConflicts, entered, setAncestors, allConflicting, hEntry, hEnters, hPolicy, -, hEq⟩
  · rw [hEq]
    exact hEnters.spendersExact hExact
  · have hAdded := @replaceAndAdd_spendersExact env pool entered tx hExact setConflicts setAncestors
      allConflicting hEntry hEnters (checkReplacement_ok (checkPolicy_ok hPolicy).2.2).1
    rw [hEq]
    split
    · exact hAdded
    · obtain ⟨gone, hShrunk⟩ := env.limited_shrunk
        (env.replaceAndAdd entered tx setAncestors allConflicting)
      exact hAdded.shrunk hShrunk

/-! ## The evicted set -/

theorem EntersObjects.linksExact (h : EntersObjects pool entered tx) (hLinks : pool.LinksExact) :
    entered.LinksExact := by
  have hSpends : entered.SpendsFrom = pool.SpendsFrom := by
    unfold CTxMemPool.SpendsFrom
    rw [h.hashes, h.entries]
  refine ⟨fun a b => ?_, fun a b => ?_⟩
  · rw [parents_congr h.links, hSpends]
    exact hLinks.parents a b
  · rw [children_congr h.links, hSpends]
    exact hLinks.children a b

/-- **Closed under descendants.** -/
theorem evicted_closed (hLinks : pool.LinksExact) {roots : Finset UInt256}
    (hRoots : roots ⊆ pool.hashes) {a b : UInt256} (ha : a ∈ pool.calculateAllDescendants roots)
    (hab : pool.SpendsFrom a b) : b ∈ pool.calculateAllDescendants roots := by
  rw [mem_calculateAllDescendants hLinks.stays hRoots] at ha ⊢
  obtain ⟨r, hr, hPath⟩ := ha
  exact ⟨r, hr, hPath.tail ((hLinks.children a b).mpr hab)⟩

/-- The ancestors of the new transaction hold its parents, and theirs. -/
theorem ancestors_closed (hLinks : pool.LinksExact) {entry : CTxMemPoolEntry}
    {limits : PackageLimits} {setAncestors : Finset UInt256}
    (h : pool.calculateMemPoolAncestors entry limits true = .ok setAncestors) :
    (∀ i ∈ entry.tx.vin, i.prevout.hash ∈ pool.hashes → i.prevout.hash ∈ setAncestors) ∧
      ∀ a b, b ∈ setAncestors → pool.SpendsFrom a b → a ∈ setAncestors := by
  have hWalk := calculateMemPoolAncestors_ok h
  have hMem : ∀ a, a ∈ setAncestors ↔
      ∃ p ∈ pool.inPoolParents entry.tx, Reaches pool.getMemPoolParents p a := by
    intro a
    rw [hWalk, mem_walk (fun x _ y hy => (spendsFrom_within
      ((hLinks.parents y x).mp hy)).1) ?_ (empty_subset _)
      (fun z hz => absurd hz (notMem_empty z)) card_hashes.le]
    · simp [walkStart]
    · exact fun p hp => (mem_inPoolParents.mp hp).1
  refine ⟨fun i hi hIn => (hMem _).mpr ⟨_, ?_, .refl⟩, fun a b hb hab => ?_⟩
  · exact mem_inPoolParents.mpr ⟨hIn, i, hi, rfl⟩
  · obtain ⟨p, hp, hPath⟩ := (hMem b).mp hb
    exact (hMem a).mpr ⟨p, hp, hPath.tail ((hLinks.parents a b).mpr hab)⟩

/-- **No output of an evicted transaction is spent**: the conflict it depends on would be an
ancestor. -/
theorem evicted_not_spent (hLinks : pool.LinksExact) {entry : CTxMemPoolEntry}
    {limits : PackageLimits} {setAncestors setConflicts : Finset UInt256}
    (hAncestors : pool.calculateMemPoolAncestors entry limits true = .ok setAncestors)
    (hApart : Disjoint setAncestors setConflicts) {i : CTxIn} (hi : i ∈ entry.tx.vin) :
    i.prevout.hash ∉ pool.calculateAllDescendants (setConflicts ∩ pool.hashes) := by
  intro hEvicted
  obtain ⟨hParents, hClosed⟩ := ancestors_closed hLinks hAncestors
  obtain ⟨c, hc, hPath⟩ := (mem_calculateAllDescendants hLinks.stays
    inter_subset_right _).mp hEvicted
  obtain ⟨hConflict, hIn⟩ := mem_inter.mp hc
  have hUp : ∀ d, Reaches pool.getMemPoolChildren c d → d ∈ setAncestors → c ∈ setAncestors := by
    intro d hPath
    induction hPath with
    | refl => exact id
    | tail _ hEdge ih =>
      intro hd
      exact ih (hClosed _ _ hd ((hLinks.children _ _).mp hEdge))
  have hWithin : i.prevout.hash ∈ pool.hashes := by
    rcases hPath.cases_tail with hEq | ⟨b, -, hEdge⟩
    · exact hEq ▸ hIn
    · exact (spendsFrom_within ((hLinks.children _ _).mp hEdge)).2
  exact disjoint_left.mp hApart (hUp _ hPath (hParents i hi hWithin)) hConflict

/-- **Safe replacement.** A successful acceptance keeps the spenders exact.  What it evicts is
closed under descendants and none of it is spent from by the new transaction, whose modified fee
covers the fees of the evicted and the relay fee for its own size. -/
theorem acceptToMemoryPool_replacement (hExact : pool.SpendersExact) (hLinks : pool.LinksExact)
    {fLimitFree fOverrideMempoolLimit : Bool} {nAbsurdFee : Int} {after : CTxMemPool}
    (hAccepted : env.acceptToMemoryPool pool tx fLimitFree fOverrideMempoolLimit nAbsurdFee =
      (after, none)) :
    after.SpendersExact ∧ after.NoDoubleSpend ∧
    ∃ entered setAncestors evicted, EntersObjects pool entered tx ∧
      after = (if fOverrideMempoolLimit then env.replaceAndAdd entered tx setAncestors evicted
        else env.limited (env.replaceAndAdd entered tx setAncestors evicted)) ∧
      (∀ a ∈ evicted, ∀ b, pool.SpendsFrom a b → b ∈ evicted) ∧
      (∀ i ∈ tx.vin, i.prevout.hash ∉ evicted) ∧
      (evicted ≠ ∅ → ∑ it ∈ evicted, pool.valueAt it (·.getModifiedFee) +
        env.minRelayFee (env.newEntry entered tx).nTxSize ≤ env.modifiedFees entered tx) := by
  have hAfter : after.SpendersExact := by
    have hAll := @acceptToMemoryPool_spendersExact env pool tx hExact fLimitFree
      fOverrideMempoolLimit nAbsurdFee
    rwa [hAccepted] at hAll
  refine ⟨hAfter, hAfter.noDoubleSpend, ?_⟩
  rcases env.acceptToMemoryPool_cases pool tx fLimitFree fOverrideMempoolLimit nAbsurdFee with
    ⟨why, left, hEq, -⟩ |
    ⟨setConflicts, entered, setAncestors, allConflicting, hEntry, hEnters, hPolicy, -, hEq⟩
  · rw [hAccepted] at hEq
    cases hEq
  · rw [hAccepted] at hEq
    obtain ⟨hAncestors, hApart, hReplacement⟩ := checkPolicy_ok hPolicy
    obtain ⟨hEvicted, hFee⟩ := checkReplacement_ok hReplacement
    have hLinked := hEnters.linksExact hLinks
    -- entering objects leaves the entries alone
    have hSpends : ∀ a b, pool.SpendsFrom a b → entered.SpendsFrom a b := by
      intro a b hab
      unfold CTxMemPool.SpendsFrom
      rwa [hEnters.hashes, hEnters.entries]
    have hValue : ∀ it f, entered.valueAt it f = pool.valueAt it f := by
      intro it f
      unfold valueAt
      rw [hEnters.entries]
    refine ⟨entered, setAncestors, allConflicting, hEnters, hEq, fun a ha b hab => ?_, fun i hi => ?_, ?_⟩
    · rw [hEvicted] at ha ⊢
      exact evicted_closed hLinked inter_subset_right ha (hSpends a b hab)
    · rw [hEvicted]
      exact evicted_not_spent hLinked hAncestors hApart hi
    · simpa only [hValue] using hFee

end AcceptEnv

/-! ## A replacement, and one after a reorganisation -/

theorem CTxMemPool.Consistent.spendersExact {pool : CTxMemPool} (h : pool.Consistent) :
    pool.SpendersExact := by
  refine ⟨fun k t ht => ?_, h.nextTx⟩
  obtain ⟨e, he, rfl⟩ := txAt_eq_some.mp ht
  exact h.linked.hash k e he

theorem CTxMemPool.Consistent.linksExact {pool : CTxMemPool} (h : pool.Consistent) :
    pool.LinksExact :=
  ⟨h.exact.parents, h.exact.children⟩

/-- A payment of the given value. -/
def payment (hash : UInt256) (prevout : COutPoint) (nValue : Int) : CTransaction where
  hash := hash
  nVersion := CTransaction.TXDZEEL_VERSION_V2
  nTime := 0
  vin := [⟨prevout⟩]
  vout := [⟨nValue, [OP_DUP]⟩]
  strDZeel := ""

/-- An environment whose chain has one coin, worth 10000. -/
def coinEnv (txid : UInt256) : AcceptEnv :=
  .lenient (.trusting (fun _ _ => false) ∅ [])
    (CStateView.empty.setCoins txid ⟨false, false, [some ⟨10000, [OP_DUP]⟩], 0, 1⟩)

/-- A payment at a fee of 5000 replaces a transaction and its child. -/
theorem acceptToMemoryPool_replacement_parentAndChild :
    let result := (coinEnv 100).acceptToMemoryPool parentAndChild (payment 3 ⟨100, 0⟩ 5000) false
      true 0
    result.2 = none ∧ result.1.hashes = {3} ∧ result.1.NoDoubleSpend := by
  have hAccepted : ((coinEnv 100).acceptToMemoryPool parentAndChild (payment 3 ⟨100, 0⟩ 5000) false
      true 0).2 = none := by decide +kernel
  refine ⟨hAccepted, by decide +kernel, ?_⟩
  exact (AcceptEnv.acceptToMemoryPool_replacement parentAndChild_consistent.spendersExact
    parentAndChild_consistent.linksExact (Prod.ext rfl hAccepted)).2.1

/-- A child whose parent was confirmed when it came in, and the parent that came in after its block
was disconnected. -/
def unlinkedChild : CTxMemPool :=
  let pool := ((coinEnv 1).acceptToMemoryPool {} (payment 2 ⟨1, 0⟩ 8000) false false 0).1
  ((coinEnv 100).acceptToMemoryPool pool (payment 1 ⟨100, 0⟩ 9000) false false 0).1

theorem unlinkedChild_spendersExact : unlinkedChild.SpendersExact :=
  AcceptEnv.acceptToMemoryPool_spendersExact (AcceptEnv.acceptToMemoryPool_spendersExact
    consistent_empty.spendersExact false false 0) false false 0

/-- **A child stays behind.** The parent is replaced; the child, which spends from it, is not linked
to it and remains in the pool. -/
theorem replacement_leaves_child :
    let result := (coinEnv 100).acceptToMemoryPool unlinkedChild (payment 3 ⟨100, 0⟩ 5000) false
      false 0
    unlinkedChild.SpendersExact ∧ unlinkedChild.SpendsFrom 1 2 ∧ result.2 = none ∧
      result.1.hashes = {2, 3} := by
  refine ⟨unlinkedChild_spendersExact, ⟨by decide +kernel, ?_⟩, by decide +kernel,
    by decide +kernel⟩
  have hChild : unlinkedChild.txAt 2 = some (payment 2 ⟨1, 0⟩ 8000) := by decide +kernel
  obtain ⟨e, he, hTx⟩ := txAt_eq_some.mp hChild
  exact ⟨e, he, ⟨⟨1, 0⟩⟩, by rw [hTx]; decide, rfl⟩

end Electrum
