import Electrum.Mempool.Consistency

/-!
# Removing entries

`RemoveStaged` first updates the sums of the entries that stay: in one loop those over ancestors,
for transactions that are confirmed in a block, and in a second loop those over descendants, which
also severs the links from the parents.  A third loop severs the links from the children.  Then the
entries are erased.

Main results:
* `removeStaged_removed` — what it does to the entries and the links
* `Consistent.removeStaged` — the pool stays consistent when a set is removed that is closed under
  descendants, or, with the sums over ancestors updated, one that is closed under ancestors
-/

namespace Electrum

open Finset Option List CTxMemPoolEntry Relation

namespace CTxMemPool

variable {pool : CTxMemPool} {pool' : CTxMemPool} {stage : Finset UInt256}

/-- The links as relations decide the ancestors. -/
theorem ancestor_congr
    (hParents : pool'.getMemPoolParents = pool.getMemPoolParents) : pool'.Ancestor = pool.Ancestor := by
  unfold Ancestor Parent
  rw [hParents]

/-- Moved sums leave the links in order. -/
theorem Linked.congr (h : pool.Linked)
    {da : UInt256 → (Int × Int × Int) × Int} {dd : UInt256 → Int × Int × Int}
    (hShifted : Shifted pool pool' da dd) (hLinks : pool'.mapLinks = pool.mapLinks) :
    pool'.Linked := by
  have hParents := parents_congr hLinks
  have hParent : pool'.Parent = pool.Parent := by
    unfold Parent
    rw [hParents]
  refine ⟨fun k e hEntry => ?_, fun a b => ?_, fun a b hab => ?_, fun k hCycle => ?_,
    fun k e hEntry => ?_, ?_⟩
  · obtain ⟨old, hOld, rfl⟩ := hShifted.some_iff.mp hEntry
    exact h.hash k old hOld
  · rw [children_congr hLinks, hParent]
    exact h.both a b
  · rw [hShifted.hashes]
    exact h.within a b (hParent ▸ hab)
  · rw [ancestor_congr hParents] at hCycle
    exact h.acyclic k hCycle
  · obtain ⟨old, hOld, rfl⟩ := hShifted.some_iff.mp hEntry
    exact h.cost k old hOld
  · rw [hShifted.hashes, hShifted.own]
    exact h.costs

/-! ## The sums over ancestors -/

/-- One entry is taken out of the sums of its descendants. -/
theorem descendantsForRemoval_step (hLinked : pool.Linked) {r : UInt256} (hr : r ∈ pool.hashes) :
    ∃ below : Finset UInt256, (∀ d, d ∈ below ↔ pool.Ancestor r d) ∧
      pool.modifyEach ((pool.calculateDescendants r ∅).erase r)
        (·.updateAncestorState (-pool.valueAt r (·.nTxSize)) (-pool.valueAt r (·.getModifiedFee))
          (-1) (-pool.valueAt r (·.sigOpCost))) =
      pool.modifyEach below (·.shift (-pool.own r) 0) := by
  refine ⟨(pool.calculateDescendants r ∅).erase r, fun d => ?_, ?_⟩
  · rw [mem_erase, mem_calculateDescendants hLinked hr (empty_subset _)
      fun a ha => absurd ha (notMem_empty a)]
    constructor
    · rintro ⟨hNe, hNone | hEq | hBelow⟩
      · exact absurd hNone (notMem_empty d)
      · exact absurd hEq hNe
      · exact hBelow
    · intro hBelow
      refine ⟨?_, .inr (.inr hBelow)⟩
      rintro rfl
      exact hLinked.acyclic d hBelow
  · have hCost := hLinked.cost_one hr
    have hOwn : (((-1, -pool.valueAt r (·.nTxSize), -pool.valueAt r (·.getModifiedFee)),
        toI32 (-pool.valueAt r (·.sigOpCost))) : (Int × Int × Int) × Int) = -pool.own r := by
      rw [valueAt_nTxSize, valueAt_getModifiedFee, valueAt_sigOpCost,
        toI32_of_small (by omega) (by omega)]
      have hCount := share_count hr
      rw [share_eq] at hCount ⊢
      simp [Prod.ext_iff, hCount]
    simp only [updateAncestorState_eq, hOwn]

/-- Every descendant loses the share of the ancestors that are taken out. -/
theorem updateDescendantsForRemoval_spec (hLinked : pool.Linked) {l : List UInt256}
    (hNodup : l.Nodup) (hSub : ∀ r ∈ l, r ∈ pool.hashes) :
    let pool' := l.foldl (fun pool removeIt =>
      let setDescendants := (pool.calculateDescendants removeIt ∅).erase removeIt
      pool.modifyEach setDescendants (·.updateAncestorState (-pool.valueAt removeIt (·.nTxSize))
        (-pool.valueAt removeIt (·.getModifiedFee)) (-1)
        (-pool.valueAt removeIt (·.sigOpCost)))) pool
    Shifted pool pool' (fun h => -sumOver l.toFinset (pool.Ancestor · h) pool.own) (fun _ => 0) ∧
      pool'.mapLinks = pool.mapLinks := by
  classical
  induction l generalizing pool with
  | nil =>
    have hRefl := Shifted.refl pool
    refine ⟨⟨fun h => ?_, rfl, rfl⟩, rfl⟩
    exact hRefl.entry h
  | cons r l ih =>
    rw [nodup_cons] at hNodup
    obtain ⟨below, hBelow, hStep⟩ :=
      descendantsForRemoval_step hLinked (hSub r mem_cons_self)
    have hFirst := @modifyEach_shifted pool below (-pool.own r) 0
    rw [← hStep] at hFirst
    have hLinks : (pool.modifyEach ((pool.calculateDescendants r ∅).erase r)
        (·.updateAncestorState (-pool.valueAt r (·.nTxSize)) (-pool.valueAt r (·.getModifiedFee))
          (-1) (-pool.valueAt r (·.sigOpCost)))).mapLinks = pool.mapLinks :=
      modifyEach_mapLinks _ _
    -- the links stay, and with them the ancestors
    have hAncestor := ancestor_congr (parents_congr hLinks)
    obtain ⟨hRest, hRestLinks⟩ := ih (hLinked.congr hFirst hLinks) hNodup.2 fun x hx => by
      rw [hFirst.hashes]
      exact hSub x (mem_cons_of_mem r hx)
    rw [hAncestor, hFirst.own] at hRest
    have hBoth := hFirst.trans hRest
    refine ⟨⟨fun h => ?_, hBoth.nextTx, hBoth.deltas⟩, hRestLinks.trans hLinks⟩
    refine (hBoth.entry h).trans ?_
    have hNot : r ∉ l.toFinset := fun hIn => hNodup.1 (mem_toFinset.mp hIn)
    rw [toFinset_cons, sumOver_insert hNot, Pi.add_apply, neg_add, if_congr (hBelow h) rfl rfl]
    congr 2
    · congr 1
      split
      · rfl
      · exact neg_zero.symm
    · simp

/-! ## The sums over descendants -/

/-- Some entries are taken out of the sums of their ancestors, which no longer link to them. -/
structure Severed (pool pool' : CTxMemPool) (gone : Finset UInt256) : Prop where
  shifted : Shifted pool pool' (fun _ => 0) fun h => -sumOver gone (pool.Ancestor h) pool.share
  parents : pool'.getMemPoolParents = pool.getMemPoolParents
  children : ∀ h c, c ∈ pool'.getMemPoolChildren h ↔
    c ∈ pool.getMemPoolChildren h ∧ ¬ (pool.Parent h c ∧ c ∈ gone)

/-- One more entry is cut off from its ancestors. -/
theorem Severed.step (hLinked : pool.Linked) {gone : Finset UInt256}
    (h : Severed pool pool' gone) {r : UInt256} {e : CTxMemPoolEntry} (hr : r ∉ gone)
    (hEntry : pool'.mapTx[r]? = some e) :
    Severed pool (pool'.updateAncestorsOf false r (pool'.ancestorsOf e false)) (insert r gone) := by
  classical
  obtain ⟨old, hOld, rfl⟩ := h.shifted.some_iff.mp hEntry
  have hIn : r ∈ pool'.hashes := mem_hashes_of_some hEntry
  have hWalk : pool'.ancestorsOf (old.shift 0 (-sumOver gone (pool.Ancestor r) pool.share)) false =
      pool.ancestorsOf old false := by
    -- the walk over links sees the links and the number of entries only
    rw [ancestorsOf_eq, ancestorsOf_eq, ← card_hashes, ← card_hashes, h.shifted.hashes]
    unfold walkStart
    rw [h.parents]
    rfl
  have hAbove :=
    mem_ancestorsOf_links hLinked hOld
  obtain ⟨hShift, hParents, hChildren⟩ :=
    updateAncestorsOf_spec hIn false (pool.ancestorsOf old false)
  rw [hWalk]
  refine ⟨?_, ?_, fun k c => ?_⟩
  · have hBoth := h.shifted.trans hShift
    refine ⟨fun k => ?_, hBoth.nextTx, hBoth.deltas⟩
    rw [hBoth.entry, sumOver_insert hr, neg_add_rev]
    congr 2
    rw [Pi.add_apply, if_congr (hAbove k) rfl rfl, h.shifted.share]
    congr 1
    split
    · rfl
    · exact neg_zero.symm
  · funext k
    rw [hParents, h.parents]
  · have hParent : pool'.Parent k r ↔ pool.Parent k r := by
      unfold Parent
      rw [h.parents]
    rw [hChildren, h.children, hParent, mem_insert]
    constructor
    · rintro ⟨⟨hc, hNot⟩, hNotR⟩
      refine ⟨hc, ?_⟩
      rintro ⟨hp, rfl | hGone⟩
      · exact hNotR ⟨hp, rfl⟩
      · exact hNot ⟨hp, hGone⟩
    · rintro ⟨hc, hNot⟩
      refine ⟨⟨hc, fun hGone => hNot ⟨hGone.1, .inr hGone.2⟩⟩, ?_⟩
      rintro ⟨hp, rfl⟩
      exact hNot ⟨hp, .inl rfl⟩

theorem updateAncestorsForRemoval_spec (hLinked : pool.Linked)
    (hSub : stage ⊆ pool.hashes) : Severed pool (pool.updateAncestorsForRemoval stage) stage := by
  have hStart : Severed pool pool ∅ := by
    refine ⟨⟨fun h => ?_, rfl, rfl⟩, rfl, fun h c => ?_⟩
    · exact (Shifted.refl pool).entry h
    · simp
  nth_rewrite 2 [← toFinset_inOrder stage]
  refine foldl_invariant (fun done pool' => Severed pool pool' done.toFinset) (inOrder stage) hStart
    fun done r rest pool' hSplit h => ?_
  have hNodup := nodup_inOrder stage
  rw [hSplit, nodup_append] at hNodup
  have hNot : r ∉ done.toFinset := fun hIn =>
    hNodup.2.2 r (mem_toFinset.mp hIn) r mem_cons_self rfl
  have hr : r ∈ pool'.hashes := by
    rw [h.shifted.hashes]
    refine hSub (mem_inOrder.mp ?_)
    rw [hSplit]
    simp
  obtain ⟨e, hEntry⟩ := exists_entry hr
  rw [hEntry, toFinset_append, union_comm]
  exact h.step hLinked hNot hEntry

/-! ## The remaining links, and the entries -/

/-- The children forget the parents that leave. -/
theorem foldl_updateChildrenForRemoval (l : List UInt256) (pool : CTxMemPool) :
    SameBut pool (l.foldl updateChildrenForRemoval pool) ∧
    (l.foldl updateChildrenForRemoval pool).getMemPoolChildren = pool.getMemPoolChildren ∧
    (∀ h p, p ∈ (l.foldl updateChildrenForRemoval pool).getMemPoolParents h ↔
      p ∈ pool.getMemPoolParents h ∧ ¬ (p ∈ l ∧ h ∈ pool.getMemPoolChildren p)) := by
  induction l generalizing pool with
  | nil => exact ⟨⟨rfl, rfl, rfl⟩, rfl, fun h p => by simp⟩
  | cons r l ih =>
    obtain ⟨hFirst, hFirstChildren, hFirstParents⟩ :=
      @foldl_updateParent pool (inOrder (pool.getMemPoolChildren r)) r false
    obtain ⟨hSame, hChildren, hParents⟩ := ih (pool.updateChildrenForRemoval r)
    rw [foldl_cons]
    have hKeep : (pool.updateChildrenForRemoval r).getMemPoolChildren = pool.getMemPoolChildren :=
      funext hFirstChildren
    refine ⟨SameBut.trans hFirst hSame, hChildren.trans hKeep, fun h p => ?_⟩
    rw [hParents, hKeep]
    have hOne : p ∈ (pool.updateChildrenForRemoval r).getMemPoolParents h ↔
        p ∈ pool.getMemPoolParents h ∧ ¬ (h ∈ pool.getMemPoolChildren r ∧ p = r) := by
      have hOne := hFirstParents h p
      simp only [Bool.false_eq_true, if_false, mem_inOrder] at hOne
      exact hOne
    rw [hOne, List.mem_cons]
    constructor
    · rintro ⟨⟨hp, hNotR⟩, hNot⟩
      refine ⟨hp, ?_⟩
      rintro ⟨rfl | hl, hc⟩
      · exact hNotR ⟨hc, rfl⟩
      · exact hNot ⟨hl, hc⟩
    · rintro ⟨hp, hNot⟩
      refine ⟨⟨hp, ?_⟩, fun hGone => hNot ⟨.inr hGone.1, hGone.2⟩⟩
      rintro ⟨hc, rfl⟩
      exact hNot ⟨.inl rfl, hc⟩

/-- One entry is taken out, with its links and the outputs that it spends. -/
theorem removeUnchecked_spec (pool : CTxMemPool) (it : UInt256) :
    (∀ h, (pool.removeUnchecked it).mapTx[h]? = if h = it then none else pool.mapTx[h]?) ∧
    (it ∈ pool.hashes → (pool.removeUnchecked it).mapLinks = pool.mapLinks.erase it) ∧
    (∀ o t, (pool.removeUnchecked it).mapNextTx[o]? = some t ↔ pool.mapNextTx[o]? = some t ∧
      ∀ e, pool.mapTx[it]? = some e → o ∉ e.tx.vin.map (·.prevout.key)) ∧
    (pool.removeUnchecked it).mapDeltas = pool.mapDeltas := by
  unfold removeUnchecked
  cases hEntry : pool.mapTx[it]? with
  | none =>
    refine ⟨fun h => ?_, fun hIn => ?_, fun o t => ?_, rfl⟩
    · by_cases hEq : h = it
      · rw [if_pos hEq, hEq]
        exact hEntry
      · rw [if_neg hEq]
    · rw [mem_hashes, hEntry] at hIn
      exact absurd hIn Bool.false_ne_true
    · simp
  | some e =>
    refine ⟨fun h => ?_, fun _ => rfl, fun o t => ?_, rfl⟩
    · rw [Std.ExtTreeMap.getElem?_erase]
      by_cases hEq : h = it
      · simp [hEq]
      · simp [hEq, Ne.symm hEq]
    · dsimp only
      rw [← foldl_map (f := fun txin : CTxIn => txin.prevout.key)
        (g := fun (m : Map (UInt256 × Nat) CTransaction) k => m.erase k), Map.getElem?_foldl_erase]
      by_cases hIn : o ∈ e.tx.vin.map (·.prevout.key)
      · simp only [if_pos hIn]
        constructor
        · intro hNone
          cases hNone
        · rintro ⟨-, hNot⟩
          exact absurd hIn (hNot e rfl)
      · rw [if_neg hIn]
        constructor
        · intro hSome
          refine ⟨hSome, fun e' he' => ?_⟩
          rwa [← some.inj he']
        · exact And.left

/-- The links of an erased entry read as empty. -/
theorem removeUnchecked_links {it : UInt256} (hIn : it ∈ pool.hashes) (h : UInt256) :
    (pool.removeUnchecked it).getMemPoolParents h =
        (if h = it then ∅ else pool.getMemPoolParents h) ∧
      (pool.removeUnchecked it).getMemPoolChildren h =
        (if h = it then ∅ else pool.getMemPoolChildren h) := by
  have hLinks := (pool.removeUnchecked_spec it).2.1 hIn
  unfold getMemPoolParents getMemPoolChildren
  rw [hLinks, Std.ExtTreeMap.getElem?_erase]
  by_cases hEq : h = it
  · simp [hEq]
  · simp [hEq, Ne.symm hEq]

/-- Taking out some entries, one after the other. -/
theorem foldl_removeUnchecked {l : List UInt256} (hNodup : l.Nodup)
    (hSub : ∀ r ∈ l, r ∈ pool.hashes) :
    (∀ h, (l.foldl removeUnchecked pool).mapTx[h]? = if h ∈ l then none else pool.mapTx[h]?) ∧
    (∀ h, (l.foldl removeUnchecked pool).getMemPoolParents h =
        (if h ∈ l then ∅ else pool.getMemPoolParents h) ∧
      (l.foldl removeUnchecked pool).getMemPoolChildren h =
        (if h ∈ l then ∅ else pool.getMemPoolChildren h)) ∧
    (∀ o t, (l.foldl removeUnchecked pool).mapNextTx[o]? = some t ↔ pool.mapNextTx[o]? = some t ∧
        ∀ r ∈ l, ∀ e, pool.mapTx[r]? = some e → o ∉ e.tx.vin.map (·.prevout.key)) ∧
    (l.foldl removeUnchecked pool).mapDeltas = pool.mapDeltas := by
  induction l generalizing pool with
  | nil => exact ⟨fun h => by simp, fun h => by simp, fun o t => by simp, rfl⟩
  | cons r l ih =>
    rw [nodup_cons] at hNodup
    obtain ⟨hTx, -, hNext, hDeltas⟩ := pool.removeUnchecked_spec r
    have hLinks := removeUnchecked_links (hSub r mem_cons_self)
    have hOther : ∀ x ∈ l, x ≠ r := by
      rintro x hx rfl
      exact hNodup.1 hx
    obtain ⟨hRestTx, hRestLinks, hRestNext, hRestDeltas⟩ :=
      @ih (pool.removeUnchecked r) hNodup.2 fun x hx => by
        rw [mem_hashes, hTx, if_neg (hOther x hx), ← mem_hashes]
        exact hSub x (mem_cons_of_mem r hx)
    rw [foldl_cons]
    refine ⟨fun h => ?_, fun h => ?_, fun o t => ?_, hRestDeltas.trans hDeltas⟩
    · rw [hRestTx, hTx]
      by_cases hEq : h = r
      · simp [hEq]
      · simp [hEq]
    · rw [(hRestLinks h).1, (hRestLinks h).2, (hLinks h).1, (hLinks h).2]
      by_cases hEq : h = r
      · simp [hEq]
      · simp [hEq]
    · rw [hRestNext, hNext, and_assoc]
      refine and_congr_right fun _ => ?_
      constructor
      · rintro ⟨hR, hRest⟩ x hx e he
        rcases mem_cons.mp hx with rfl | hl
        · exact hR e he
        · refine hRest x hl e ?_
          rw [hTx, if_neg (hOther x hl)]
          exact he
      · intro hAll
        refine ⟨hAll r mem_cons_self, fun x hx e he => ?_⟩
        rw [hTx, if_neg (hOther x hx)] at he
        exact hAll x (mem_cons_of_mem r hx) e he

/-- **A removal** as a whole: the entries are gone with their links and what they spent, and those
that stay are moved by what they lose. -/
structure Removed (pool pool' : CTxMemPool) (stage : Finset UInt256) (updateDescendants : Bool) :
    Prop where
  entries : ∀ h, pool'.mapTx[h]? = if h ∈ stage then none
    else (pool.mapTx[h]?).map (shift
      (if updateDescendants then -sumOver stage (pool.Ancestor · h) pool.own else 0)
      (-sumOver stage (pool.Ancestor h) pool.share))
  parents : ∀ p h, pool'.Parent p h ↔ pool.Parent p h ∧ p ∉ stage ∧ h ∉ stage
  children : ∀ h c, c ∈ pool'.getMemPoolChildren h ↔
    c ∈ pool.getMemPoolChildren h ∧ h ∉ stage ∧ c ∉ stage
  nextTx : ∀ o t, pool'.mapNextTx[o]? = some t ↔ pool.mapNextTx[o]? = some t ∧
    ∀ r ∈ stage, ∀ e, pool.mapTx[r]? = some e → o ∉ e.tx.vin.map (·.prevout.key)
  deltas : pool'.mapDeltas = pool.mapDeltas

/-- The first loop, or none. -/
theorem updateDescendants_shifted (hLinked : pool.Linked)
    (hSub : stage ⊆ pool.hashes) (updateDescendants : Bool) :
    Shifted pool (if updateDescendants then pool.updateDescendantsForRemoval stage else pool)
      (fun h => if updateDescendants then -sumOver stage (pool.Ancestor · h) pool.own else 0)
      (fun _ => 0) ∧
    (if updateDescendants then pool.updateDescendantsForRemoval stage else pool).mapLinks =
      pool.mapLinks := by
  cases updateDescendants with
  | false => exact ⟨Shifted.refl pool, rfl⟩
  | true =>
    have hSpec := updateDescendantsForRemoval_spec hLinked (nodup_inOrder stage)
      fun r hr => hSub (mem_inOrder.mp hr)
    rw [toFinset_inOrder] at hSpec
    exact hSpec

/-- **What `RemoveStaged` does**, on a pool whose links are consistent. -/
theorem removeStaged_removed (hLinked : pool.Linked)
    (hSub : stage ⊆ pool.hashes) (updateDescendants : Bool) :
    Removed pool (pool.removeStaged stage updateDescendants) stage updateDescendants := by
  -- the sums over ancestors
  obtain ⟨hDown, hDownLinks⟩ := updateDescendants_shifted hLinked hSub updateDescendants
  have hDownLinked := hLinked.congr hDown hDownLinks
  unfold removeStaged updateForRemoveFromMempool
  dsimp only
  generalize (if updateDescendants then pool.updateDescendantsForRemoval stage else pool) = down
    at hDown hDownLinks hDownLinked
  have hAncestor : down.Ancestor = pool.Ancestor := ancestor_congr (parents_congr hDownLinks)
  have hParentDown : ∀ p h, p ∈ down.getMemPoolParents h ↔ pool.Parent p h := by
    intro p h
    rw [parents_congr hDownLinks]
    rfl
  -- the sums over descendants
  have hUp := updateAncestorsForRemoval_spec hDownLinked (hDown.hashes ▸ hSub)
  generalize down.updateAncestorsForRemoval stage = up at hUp
  -- the links from the children
  obtain ⟨hSame, hChildren, hParents⟩ := foldl_updateChildrenForRemoval (inOrder stage) up
  generalize (inOrder stage).foldl updateChildrenForRemoval up = cut at hSame hChildren hParents
  have hAll := (hDown.trans hUp.shifted).trans hSame.shifted
  rw [hAncestor, hDown.share] at hAll
  -- the entries
  obtain ⟨hTx, hLinks, hNext, hDeltas⟩ := @foldl_removeUnchecked cut (inOrder stage)
    (nodup_inOrder stage) fun r hr => by
      rw [hAll.hashes]
      exact hSub (mem_inOrder.mp hr)
  simp only [mem_inOrder] at hTx hLinks hNext hParents
  have hCutChildren : ∀ h c, c ∈ cut.getMemPoolChildren h ↔ pool.Parent h c ∧ c ∉ stage := by
    intro h c
    have hDownParent : down.Parent h c ↔ pool.Parent h c := hParentDown h c
    rw [hChildren, hUp.children, hDownLinked.both]
    tauto
  have hCutParents : ∀ h p, h ∉ stage →
      (p ∈ cut.getMemPoolParents h ↔ pool.Parent p h ∧ p ∉ stage) := by
    intro h p hStay
    rw [hParents, hUp.parents, hParentDown, ← hChildren, hCutChildren]
    tauto
  refine ⟨fun h => ?_, fun p h => ?_, fun h c => ?_, fun o t => ?_, ?_⟩
  · rw [hTx, hAll.entry]
    simp
  · unfold Parent
    rw [(hLinks h).1]
    split
    case isTrue hOut => simp [hOut]
    case isFalse hStay =>
      rw [hCutParents h p hStay]
      simp only [hStay, not_false_eq_true, and_true]
      rfl
  · rw [(hLinks h).2, hLinked.both]
    split
    case isTrue hOut => simp [hOut]
    case isFalse hStay =>
      rw [hCutChildren]
      simp [hStay]
  · rw [hNext, hAll.nextTx]
    refine and_congr_right fun _ => forall_congr' fun r => forall_congr' fun _ => ?_
    constructor
    · intro hOut e he
      exact hOut (e.shift _ _) (hAll.some_iff.mpr ⟨e, he, rfl⟩)
    · intro hOut e he
      obtain ⟨old, hOld, rfl⟩ := hAll.some_iff.mp he
      exact hOut old hOld
  · rw [hDeltas, hAll.deltas]

/-! ## Consistency -/

/-- **What may be removed**: entries with all their descendants, or, if the sums over ancestors are
updated, entries with all their ancestors. -/
structure Removable (pool : CTxMemPool) (stage : Finset UInt256) (updateDescendants : Bool) :
    Prop where
  entries : stage ⊆ pool.hashes
  closed : (∀ a ∈ stage, ∀ b, pool.SpendsFrom a b → b ∈ stage) ∨
    (updateDescendants = true ∧ ∀ b ∈ stage, ∀ a, pool.SpendsFrom a b → a ∈ stage)

section Removing

variable {pool' : CTxMemPool} {stage : Finset UInt256} {updateDescendants : Bool}
  (h : pool.Consistent) (hStage : pool.Removable stage updateDescendants)
  (hRemoved : Removed pool pool' stage updateDescendants) {a b : UInt256}

include h in
theorem Removable.below (hClosed : ∀ a ∈ stage, ∀ b, pool.SpendsFrom a b → b ∈ stage)
    (ha : a ∈ stage) (hBelow : pool.Ancestor a b) : b ∈ stage := by
  induction hBelow with
  | single hStep => exact hClosed a ha _ ((h.spends _ _).mp hStep)
  | tail _ hStep ih => exact hClosed _ ih _ ((h.spends _ _).mp hStep)

include h in
theorem Removable.above (hClosed : ∀ b ∈ stage, ∀ a, pool.SpendsFrom a b → a ∈ stage)
    (hb : b ∈ stage) (hAbove : pool.Ancestor a b) : a ∈ stage := by
  induction hAbove using TransGen.head_induction_on with
  | single hStep => exact hClosed _ hb _ ((h.spends _ _).mp hStep)
  | head hStep _ ih => exact hClosed _ ih _ ((h.spends _ _).mp hStep)

include h hStage in
/-- No path between entries that stay leads over one that goes. -/
theorem Removable.between (a x b : UInt256) (ha : ¬ a ∈ stage) (hb : ¬ b ∈ stage) (hx : x ∈ stage)
    (hAbove : pool.Ancestor a x) : ¬ pool.Ancestor x b := by
  intro hBelow
  rcases hStage.closed with hDown | ⟨-, hUp⟩
  · exact hb (Removable.below h hDown hx hBelow)
  · exact ha (Removable.above h hUp hx hAbove)

include hRemoved

theorem Removed.hashes : pool'.hashes = pool.hashes \ stage := by
  ext k
  rw [mem_sdiff, mem_hashes, hRemoved.entries, mem_hashes]
  by_cases hk : k ∈ stage
  · simp [hk]
  · simp [hk]

theorem Removed.own {k : UInt256} (hk : k ∉ stage) : pool'.own k = pool.own k := by
  unfold CTxMemPool.own
  rw [hRemoved.entries, if_neg hk]
  cases pool.mapTx[k]? <;> rfl

theorem Removed.ancestor_stays (hab : pool'.Ancestor a b) : a ∉ stage ∧ b ∉ stage :=
  transGen_within (a := a) (b := b) (fun a b hp => ((hRemoved.parents a b).mp hp).2) hab

include hStage in
/-- The sums over what stays, for an entry that stays. -/
theorem Removed.sumOver_stays {M : Type} [AddCommMonoid M] (w w' : UInt256 → M)
    (P P' : UInt256 → Prop) (hw : ∀ k ∉ stage, w' k = w k) (hP : ∀ k ∉ stage, P' k ↔ P k) :
    sumOver pool.hashes P w = sumOver pool'.hashes P' w' + sumOver stage P w := by
  rw [sumOver_split P (· ∈ stage)]
  congr 1
  · refine sumOver_congr (fun k => ?_) fun k _ hk => (hw k hk.2).symm
    rw [hRemoved.hashes, mem_sdiff]
    constructor
    · exact fun ⟨hIn, hk, hOut⟩ => ⟨⟨hIn, hOut⟩, (hP k hOut).mpr hk⟩
    · exact fun ⟨⟨hIn, hOut⟩, hk⟩ => ⟨hIn, (hP k hOut).mp hk, hOut⟩
  · refine sumOver_congr (fun k => ?_) fun _ _ _ => rfl
    constructor
    · exact fun ⟨_, hk, hIn⟩ => ⟨hIn, hk⟩
    · exact fun ⟨hIn, hk⟩ => ⟨hStage.entries hIn, hk, hIn⟩

theorem Removed.spendsFrom (a b : UInt256) :
    pool'.SpendsFrom a b ↔ pool.SpendsFrom a b ∧ a ∉ stage ∧ b ∉ stage := by
  unfold SpendsFrom
  rw [hRemoved.hashes, hRemoved.entries]
  by_cases hb : b ∈ stage
  · simp [hb]
  · cases pool.mapTx[b]? with
    | none => simp
    | some e =>
      simp [hb]
      tauto

include h

/-- The outputs that the entries spent are free again. -/
theorem Removed.nextTxExact : pool'.NextTxExact := by
  intro o t
  rw [hRemoved.nextTx, h.nextTx]
  have hTx : (∃ e, pool'.mapTx[t.hash]? = some e ∧ e.tx = t) ↔
      (∃ e, pool.mapTx[t.hash]? = some e ∧ e.tx = t) ∧ t.hash ∉ stage := by
    rw [hRemoved.entries]
    by_cases ht : t.hash ∈ stage
    · simp [ht]
    · cases pool.mapTx[t.hash]? <;> simp [ht]
  rw [hTx]
  constructor
  · rintro ⟨⟨⟨e, hEntry, hEq⟩, hInput⟩, hOut⟩
    refine ⟨⟨⟨e, hEntry, hEq⟩, fun hIn => ?_⟩, hInput⟩
    obtain ⟨i, hi, hKey⟩ := hInput
    exact hOut t.hash hIn e hEntry (mem_map.mpr ⟨i, hEq ▸ hi, hKey⟩)
  · rintro ⟨⟨hThere, hStay⟩, hInput⟩
    refine ⟨⟨hThere, hInput⟩, fun r hr e he hIn => ?_⟩
    -- an output is spent by one entry only
    obtain ⟨i, hi, hKey⟩ := mem_map.mp hIn
    have hHash := h.linked.hash r e he
    have hSome := (h.nextTx o e.tx).mpr ⟨⟨e, hHash.symm ▸ he, rfl⟩, i, hi, hKey⟩
    have hSame := (h.nextTx o t).mpr ⟨hThere, hInput⟩
    rw [hSome] at hSame
    rw [some.inj hSame] at hHash
    exact hStay (hHash ▸ hr)

include hStage

theorem Removed.ancestor (ha : a ∉ stage) (hb : b ∉ stage) :
    pool'.Ancestor a b ↔ pool.Ancestor a b :=
  transGen_restrict hRemoved.parents (Removable.between h hStage) ha hb

/-- **The links stay consistent.** -/
theorem Removed.linked : pool'.Linked := by
  have hLinked := h.linked
  have hHashes := hRemoved.hashes
  refine ⟨fun k e hEntry => ?_, fun a b => ?_, fun a b hab => ?_, fun k hCycle => ?_,
    fun k e hEntry => ?_, ?_⟩
  · rw [hRemoved.entries] at hEntry
    split at hEntry
    case isTrue => cases hEntry
    case isFalse =>
      obtain ⟨old, hOld, rfl⟩ := map_eq_some_iff.mp hEntry
      exact hLinked.hash k old hOld
  · rw [hRemoved.children, hRemoved.parents, hLinked.both]
  · obtain ⟨hOld, ha, hb⟩ := (hRemoved.parents a b).mp hab
    obtain ⟨haIn, hbIn⟩ := hLinked.within a b hOld
    rw [hHashes, mem_sdiff, mem_sdiff]
    exact ⟨⟨haIn, ha⟩, hbIn, hb⟩
  · obtain ⟨hk, -⟩ := hRemoved.ancestor_stays hCycle
    exact hLinked.acyclic k ((hRemoved.ancestor h hStage hk hk).mp hCycle)
  · rw [hRemoved.entries] at hEntry
    split at hEntry
    case isTrue => cases hEntry
    case isFalse =>
      obtain ⟨old, hOld, rfl⟩ := map_eq_some_iff.mp hEntry
      exact hLinked.cost k old hOld
  · rw [hHashes, sum_congr rfl fun k hk => by
      rw [hRemoved.own (mem_sdiff.mp hk).2]]
    have hSum := (hLinked.cost_sum (s := pool.hashes \ stage) sdiff_subset).2
    rwa [Prod.snd_sum] at hSum

/-- **The sums stay exact.** -/
theorem Removed.summed : pool'.Summed pool'.Ancestor := by
  constructor
  · intro k e hEntry
    rw [hRemoved.entries] at hEntry
    split at hEntry
    case isTrue => cases hEntry
    case isFalse hk =>
      obtain ⟨old, hOld, rfl⟩ := map_eq_some_iff.mp hEntry
      have hSplit := hRemoved.sumOver_stays hStage pool.own pool'.own (pool.Ancestor · k)
        (pool'.Ancestor · k) (fun a ha => hRemoved.own ha)
        fun a ha => hRemoved.ancestor h hStage ha hk
      rw [ancestorState_shift, h.summed.ancestors k old hOld, own_shift, hSplit]
      cases hFlag : updateDescendants with
      | true =>
        rw [if_pos rfl]
        abel
      | false =>
        -- with its descendants gone, an entry that goes is no ancestor of one that stays
        have hNone : sumOver stage (pool.Ancestor · k) pool.own = 0 := by
          refine (sumOver_eq (s := ∅) _ fun a => ?_).trans sum_empty
          rcases hStage.closed with hDown | ⟨hTrue, -⟩
          · simp only [notMem_empty, false_iff, not_and]
            exact fun ha hAbove => hk (Removable.below h hDown ha hAbove)
          · rw [hFlag] at hTrue
            cases hTrue
        rw [hNone, add_zero, if_neg Bool.false_ne_true, add_zero]
  · intro k e hEntry
    rw [hRemoved.entries] at hEntry
    split at hEntry
    case isTrue => cases hEntry
    case isFalse hk =>
      obtain ⟨old, hOld, rfl⟩ := map_eq_some_iff.mp hEntry
      have hSplit := hRemoved.sumOver_stays hStage pool.share pool'.share (pool.Ancestor k)
        (pool'.Ancestor k) (fun d hd => by rw [share_eq, share_eq, hRemoved.own hd])
        fun d hd => hRemoved.ancestor h hStage hk hd
      rw [descendantState_shift, h.summed.descendants k old hOld, share_shift, hSplit]
      abel

end Removing

/-- **Removing** entries with their descendants, or transactions of a block. -/
theorem Consistent.removeStaged (h : pool.Consistent)
    {updateDescendants : Bool} (hStage : pool.Removable stage updateDescendants) :
    (pool.removeStaged stage updateDescendants).Consistent := by
  have hRemoved := removeStaged_removed h.linked hStage.entries updateDescendants
  refine ⟨hRemoved.linked h hStage, fun a b => ?_, hRemoved.summed h hStage,
    hRemoved.nextTxExact h, fun k e hEntry => ?_⟩
  · rw [hRemoved.parents, hRemoved.spendsFrom, h.spends]
  · rw [hRemoved.entries] at hEntry
    rw [hRemoved.deltas]
    split at hEntry
    case isTrue => cases hEntry
    case isFalse =>
      obtain ⟨old, hOld, rfl⟩ := map_eq_some_iff.mp hEntry
      exact h.feeDelta k old hOld

end CTxMemPool

end Electrum
