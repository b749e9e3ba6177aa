import Electrum.Mempool.TxMemPool

/-!
# Package sums

Every entry of the pool carries two sums, over its ancestors and over its descendants.  The
operations change them by increments, and change the links one by one.  This module says what each
operation does to the entries and to the links as a whole.

Main results:
* `mem_ancestorsOf_links`, `mem_ancestorsOf_search`, `mem_calculateDescendants` — the three walks
  find the ancestors and the descendants
-/

namespace Electrum

open Finset Relation

/-! ## The two states of an entry -/

namespace CTxMemPoolEntry

/-- What an entry counts for in a sum: one entry, its size and its fee. -/
def share (e : CTxMemPoolEntry) : Int × Int × Int := (1, e.nTxSize, e.getModifiedFee)

/-- What it counts for among ancestors, where the cost is summed too. -/
def own (e : CTxMemPoolEntry) : (Int × Int × Int) × Int := (e.share, e.sigOpCost)

def descendantState (e : CTxMemPoolEntry) : Int × Int × Int :=
  (e.nCountWithDescendants, e.nSizeWithDescendants, e.nModFeesWithDescendants)

def ancestorState (e : CTxMemPoolEntry) : (Int × Int × Int) × Int :=
  ((e.nCountWithAncestors, e.nSizeWithAncestors, e.nModFeesWithAncestors),
    e.nSigOpCostWithAncestors)

/-- The entry with its two states moved. -/
def shift (da : (Int × Int × Int) × Int) (dd : Int × Int × Int) (e : CTxMemPoolEntry) :
    CTxMemPoolEntry :=
  { e with
    nCountWithAncestors := e.nCountWithAncestors + da.1.1
    nSizeWithAncestors := e.nSizeWithAncestors + da.1.2.1
    nModFeesWithAncestors := e.nModFeesWithAncestors + da.1.2.2
    nSigOpCostWithAncestors := e.nSigOpCostWithAncestors + da.2
    nCountWithDescendants := e.nCountWithDescendants + dd.1
    nSizeWithDescendants := e.nSizeWithDescendants + dd.2.1
    nModFeesWithDescendants := e.nModFeesWithDescendants + dd.2.2 }

variable (da da' : (Int × Int × Int) × Int) (dd dd' : Int × Int × Int) (e : CTxMemPoolEntry)

@[simp] theorem shift_zero : e.shift 0 0 = e := by simp [shift]

@[simp] theorem shift_shift : (e.shift da dd).shift da' dd' = e.shift (da + da') (dd + dd') := by
  simp [shift, add_assoc]

@[simp] theorem share_shift : (e.shift da dd).share = e.share := rfl
@[simp] theorem own_shift : (e.shift da dd).own = e.own := rfl
@[simp] theorem tx_shift : (e.shift da dd).tx = e.tx := rfl
@[simp] theorem sigOpCost_shift : (e.shift da dd).sigOpCost = e.sigOpCost := rfl
@[simp] theorem feeDelta_shift : (e.shift da dd).feeDelta = e.feeDelta := rfl
@[simp] theorem ancestorState_shift : (e.shift da dd).ancestorState = e.ancestorState + da := rfl
@[simp] theorem descendantState_shift : (e.shift da dd).descendantState = e.descendantState + dd :=
  rfl

theorem updateDescendantState_eq (modifySize modifyFee modifyCount : Int) :
    e.updateDescendantState modifySize modifyFee modifyCount =
      e.shift 0 (modifyCount, modifySize, modifyFee) := by
  simp [shift, updateDescendantState]

theorem updateAncestorState_eq (modifySize modifyFee modifyCount modifySigOps : Int) :
    e.updateAncestorState modifySize modifyFee modifyCount modifySigOps =
      e.shift ((modifyCount, modifySize, modifyFee), toI32 modifySigOps) 0 := by
  simp [shift, updateAncestorState]

/-- The fee delta is part of what the entry counts for, and of both its states. -/
theorem updateFeeDelta_states (newFeeDelta : Int) (hAnc : e.ancestorState = e.own + da)
    (hDesc : e.descendantState = e.share + dd) :
    (e.updateFeeDelta newFeeDelta).ancestorState = (e.updateFeeDelta newFeeDelta).own + da ∧
      (e.updateFeeDelta newFeeDelta).descendantState =
        (e.updateFeeDelta newFeeDelta).share + dd := by
  simp only [ancestorState, own, share, getModifiedFee, descendantState, Prod.ext_iff, Prod.fst_add,
    Prod.snd_add] at hAnc hDesc
  simp only [ancestorState, own, share, getModifiedFee, descendantState, updateFeeDelta,
    Prod.ext_iff, Prod.fst_add, Prod.snd_add]
  omega

end CTxMemPoolEntry

theorem toI32_of_small {z : Int} (hLow : -2 ^ 31 ≤ z) (hHigh : z < 2 ^ 31) : toI32 z = z := by
  unfold toI32
  omega

namespace CTxMemPool

variable (pool : CTxMemPool)

/-! ## Entries by their hashes -/

def hashes : Finset UInt256 := pool.mapTx.keys.toFinset

/-- What the entry at a hash counts for. -/
def share (h : UInt256) : Int × Int × Int := (pool.mapTx[h]?).elim 0 CTxMemPoolEntry.share

def own (h : UInt256) : (Int × Int × Int) × Int := (pool.mapTx[h]?).elim 0 CTxMemPoolEntry.own

variable {pool}

variable {h : UInt256} {e : CTxMemPoolEntry} {s result : Finset UInt256} {pool' : CTxMemPool}
  {limits : PackageLimits}

theorem mem_hashes : h ∈ pool.hashes ↔ (pool.mapTx[h]?).isSome = true := by
  unfold hashes
  rw [List.mem_toFinset, Map.mem_keys_iff]

theorem mem_hashes_of_some (hEntry : pool.mapTx[h]? = some e) : h ∈ pool.hashes := by
  rw [mem_hashes, hEntry]
  rfl

theorem exists_entry (hIn : h ∈ pool.hashes) : ∃ e, pool.mapTx[h]? = some e :=
  Option.isSome_iff_exists.mp (mem_hashes.mp hIn)

theorem has_iff : pool.has h = true ↔ h ∈ pool.hashes := by
  unfold has
  rw [mem_hashes, Std.ExtTreeMap.contains_eq_isSome_getElem?]

theorem card_hashes : pool.hashes.card = pool.mapTx.size := by
  unfold hashes
  rw [List.toFinset_card_of_nodup (Map.nodup_keys _), Std.ExtTreeMap.length_keys]

theorem own_of_some (hEntry : pool.mapTx[h]? = some e) : pool.own h = e.own := by
  unfold own
  rw [hEntry]
  rfl

theorem share_of_some (hEntry : pool.mapTx[h]? = some e) : pool.share h = e.share := by
  unfold share
  rw [hEntry]
  rfl

theorem share_eq (h : UInt256) : pool.share h = (pool.own h).1 := by
  unfold share own
  cases pool.mapTx[h]? <;> rfl

theorem valueAt_nTxSize (h : UInt256) : pool.valueAt h (·.nTxSize) = (pool.share h).2.1 := by
  unfold valueAt share
  cases pool.mapTx[h]? <;> rfl

theorem valueAt_getModifiedFee (h : UInt256) :
    pool.valueAt h (·.getModifiedFee) = (pool.share h).2.2 := by
  unfold valueAt share
  cases pool.mapTx[h]? <;> rfl

theorem valueAt_sigOpCost (h : UInt256) : pool.valueAt h (·.sigOpCost) = (pool.own h).2 := by
  unfold valueAt own
  cases pool.mapTx[h]? <;> rfl

theorem share_count (hIn : h ∈ pool.hashes) : (pool.share h).1 = 1 := by
  obtain ⟨e, hEntry⟩ := exists_entry hIn
  rw [share_of_some hEntry]
  rfl

/-- The sums that the code makes field by field. -/
theorem sum_share (hs : s ⊆ pool.hashes) : ((s.card : Int), ∑ a ∈ s, pool.valueAt a (·.nTxSize),
      ∑ a ∈ s, pool.valueAt a (·.getModifiedFee)) = ∑ a ∈ s, pool.share a := by
  refine Prod.ext ?_ (Prod.ext ?_ ?_)
  · rw [Prod.fst_sum, sum_congr rfl fun a ha => share_count (hs ha)]
    simp
  · rw [Prod.snd_sum, Prod.fst_sum]
    exact sum_congr rfl fun a _ => valueAt_nTxSize a
  · rw [Prod.snd_sum, Prod.snd_sum]
    exact sum_congr rfl fun a _ => valueAt_getModifiedFee a

theorem sum_own :
    (∑ a ∈ s, pool.share a, ∑ a ∈ s, pool.valueAt a (·.sigOpCost)) = ∑ a ∈ s, pool.own a := by
  refine Prod.ext ?_ ?_
  · rw [Prod.fst_sum]
    exact sum_congr rfl fun a _ => share_eq a
  · rw [Prod.snd_sum]
    exact sum_congr rfl fun a _ => valueAt_sigOpCost a

/-! ## Entries moved -/

/-- **The same entries**, with their states moved by so much. -/
structure Shifted (pool pool' : CTxMemPool) (da : UInt256 → (Int × Int × Int) × Int)
    (dd : UInt256 → Int × Int × Int) : Prop where
  entry : ∀ h, pool'.mapTx[h]? = (pool.mapTx[h]?).map (CTxMemPoolEntry.shift (da h) (dd h))
  nextTx : pool'.mapNextTx = pool.mapNextTx
  deltas : pool'.mapDeltas = pool.mapDeltas

namespace Shifted

variable {pool pool' pool'' : CTxMemPool} {da da' : UInt256 → (Int × Int × Int) × Int}
  {dd dd' : UInt256 → Int × Int × Int}

theorem of_mapTx (hTx : pool'.mapTx = pool.mapTx) (hNext : pool'.mapNextTx = pool.mapNextTx)
    (hDeltas : pool'.mapDeltas = pool.mapDeltas) : Shifted pool pool' (fun _ => 0) fun _ => 0 := by
  refine ⟨fun h => ?_, hNext, hDeltas⟩
  rw [hTx]
  cases pool.mapTx[h]? <;> simp

theorem refl (pool : CTxMemPool) : Shifted pool pool (fun _ => 0) fun _ => 0 :=
  of_mapTx rfl rfl rfl

theorem trans (h : Shifted pool pool' da dd) (h' : Shifted pool' pool'' da' dd') :
    Shifted pool pool'' (da + da') (dd + dd') := by
  refine ⟨fun k => ?_, h'.nextTx.trans h.nextTx, h'.deltas.trans h.deltas⟩
  rw [h'.entry, h.entry]
  cases pool.mapTx[k]? <;> simp

theorem hashes (h : Shifted pool pool' da dd) : pool'.hashes = pool.hashes := by
  ext k
  rw [mem_hashes, mem_hashes, h.entry, Option.isSome_map]

theorem own (h : Shifted pool pool' da dd) : pool'.own = pool.own := by
  funext k
  unfold CTxMemPool.own
  rw [h.entry]
  cases pool.mapTx[k]? <;> simp

theorem share (h : Shifted pool pool' da dd) : pool'.share = pool.share := by
  funext k
  unfold CTxMemPool.share
  rw [h.entry]
  cases pool.mapTx[k]? <;> simp

theorem some_iff (h : Shifted pool pool' da dd) {k : UInt256} {e' : CTxMemPoolEntry} :
    pool'.mapTx[k]? = some e' ↔ ∃ e, pool.mapTx[k]? = some e ∧ e' = e.shift (da k) (dd k) := by
  rw [h.entry]
  cases pool.mapTx[k]? <;> simp [eq_comm]

end Shifted

theorem modifyEach_eq (its : Finset UInt256) (f : CTxMemPoolEntry → CTxMemPoolEntry) :
    pool.modifyEach its f =
      { pool with mapTx := (inOrder its).foldl (fun m it => m.modify it f) pool.mapTx } := by
  unfold modifyEach
  generalize inOrder its = l
  induction l generalizing pool with
  | nil => rfl
  | cons it l ih =>
    rw [List.foldl_cons, ih]
    rfl

@[simp] theorem modifyEach_mapLinks (its : Finset UInt256) (f : CTxMemPoolEntry → CTxMemPoolEntry) :
    (pool.modifyEach its f).mapLinks = pool.mapLinks := by rw [modifyEach_eq]

theorem modifyEach_mapTx (its : Finset UInt256) (f : CTxMemPoolEntry → CTxMemPoolEntry)
    (h : UInt256) : (pool.modifyEach its f).mapTx[h]? =
      (pool.mapTx[h]?).map fun e => if h ∈ its then f e else e := by
  rw [modifyEach_eq]
  simp only [Map.getElem?_foldl_modify f _ (nodup_inOrder its), mem_inOrder]

theorem modifyEach_shifted (its : Finset UInt256) (da : (Int × Int × Int) × Int)
    (dd : Int × Int × Int) :
    Shifted pool (pool.modifyEach its (·.shift da dd)) (fun h => if h ∈ its then da else 0)
      fun h => if h ∈ its then dd else 0 := by
  refine ⟨fun h => ?_, by rw [modifyEach_eq], by rw [modifyEach_eq]⟩
  rw [modifyEach_mapTx]
  congr 1
  funext e
  split <;> simp

theorem modify_shifted (it : UInt256) (da : (Int × Int × Int) × Int) (dd : Int × Int × Int) :
    Shifted pool (pool.modify it (·.shift da dd)) (fun h => if h = it then da else 0)
      fun h => if h = it then dd else 0 := by
  refine ⟨fun h => ?_, rfl, rfl⟩
  unfold modify
  rw [Map.getElem?_modify_eq]
  congr 1
  funext e
  by_cases hEq : it = h
  · simp [hEq]
  · simp [hEq, Ne.symm hEq]

/-! ## Links moved -/

/-- The links as the two functions that read them. -/
theorem parents_congr (h : pool'.mapLinks = pool.mapLinks) :
    pool'.getMemPoolParents = pool.getMemPoolParents := by
  unfold getMemPoolParents
  rw [h]

theorem children_congr (h : pool'.mapLinks = pool.mapLinks) :
    pool'.getMemPoolChildren = pool.getMemPoolChildren := by
  unfold getMemPoolChildren
  rw [h]

theorem updateChild_parents (it child h : UInt256) (add : Bool) :
    (pool.updateChild it child add).getMemPoolParents h = pool.getMemPoolParents h := by
  unfold updateChild getMemPoolParents
  rw [Map.getElem?_upsert]
  split
  case isTrue hEq =>
    subst hEq
    cases pool.mapLinks[it]? <;> rfl
  case isFalse => rfl

theorem updateChild_children (it child h : UInt256) (add : Bool) :
    (pool.updateChild it child add).getMemPoolChildren h = if it = h then
      (if add then insert child (pool.getMemPoolChildren h)
        else (pool.getMemPoolChildren h).erase child)
      else pool.getMemPoolChildren h := by
  unfold updateChild getMemPoolChildren
  rw [Map.getElem?_upsert]
  split
  case isTrue hEq =>
    subst hEq
    cases pool.mapLinks[it]? <;> rfl
  case isFalse => rfl

theorem updateParent_parents (it parent h : UInt256) (add : Bool) :
    (pool.updateParent it parent add).getMemPoolParents h = if it = h then
      (if add then insert parent (pool.getMemPoolParents h)
        else (pool.getMemPoolParents h).erase parent)
      else pool.getMemPoolParents h := by
  unfold updateParent getMemPoolParents
  rw [Map.getElem?_upsert]
  split
  case isTrue hEq =>
    subst hEq
    cases pool.mapLinks[it]? <;> rfl
  case isFalse => rfl

theorem updateParent_children (it parent h : UInt256) (add : Bool) :
    (pool.updateParent it parent add).getMemPoolChildren h = pool.getMemPoolChildren h := by
  unfold updateParent getMemPoolChildren
  rw [Map.getElem?_upsert]
  split
  case isTrue hEq =>
    subst hEq
    cases pool.mapLinks[it]? <;> rfl
  case isFalse => rfl

/-- **Only links differ** between two pools. -/
structure SameBut (pool pool' : CTxMemPool) : Prop where
  tx : pool'.mapTx = pool.mapTx
  nextTx : pool'.mapNextTx = pool.mapNextTx
  deltas : pool'.mapDeltas = pool.mapDeltas

theorem SameBut.trans {pool pool'' : CTxMemPool} (h : SameBut pool pool')
    (h' : SameBut pool' pool'') : SameBut pool pool'' :=
  ⟨h'.tx.trans h.tx, h'.nextTx.trans h.nextTx, h'.deltas.trans h.deltas⟩

theorem SameBut.shifted {pool : CTxMemPool} (h : SameBut pool pool') :
    Shifted pool pool' (fun _ => 0) fun _ => 0 :=
  .of_mapTx h.tx h.nextTx h.deltas

/-- The child is linked to, or unlinked from, each of some parents. -/
theorem foldl_updateChild (ps : List UInt256) (it : UInt256) (add : Bool) :
    SameBut pool (ps.foldl (fun pool p => pool.updateChild p it add) pool) ∧
    (∀ h, (ps.foldl (fun pool p => pool.updateChild p it add) pool).getMemPoolParents h =
      pool.getMemPoolParents h) ∧
    (∀ h c, c ∈ (ps.foldl (fun pool p => pool.updateChild p it add) pool).getMemPoolChildren h ↔
      if add then c ∈ pool.getMemPoolChildren h ∨ (h ∈ ps ∧ c = it)
      else c ∈ pool.getMemPoolChildren h ∧ ¬ (h ∈ ps ∧ c = it)) := by
  induction ps generalizing pool with
  | nil =>
    refine ⟨⟨rfl, rfl, rfl⟩, fun _ => rfl, fun h c => ?_⟩
    cases add <;> simp
  | cons p ps ih =>
    obtain ⟨hSame, hParents, hChildren⟩ := @ih (pool.updateChild p it add)
    have hFirst : SameBut pool (pool.updateChild p it add) := ⟨rfl, rfl, rfl⟩
    rw [List.foldl_cons]
    refine ⟨hFirst.trans hSame, fun h => ?_, fun h c => ?_⟩
    · rw [hParents, updateChild_parents]
    · rw [hChildren, updateChild_children]
      by_cases hEq : p = h
      · subst hEq
        cases add <;> simp <;> tauto
      · cases add <;> simp [hEq, Ne.symm hEq]

/-- The parent is linked to, or unlinked from, each of some children. -/
theorem foldl_updateParent (cs : List UInt256) (it : UInt256) (add : Bool) :
    SameBut pool (cs.foldl (fun pool c => pool.updateParent c it add) pool) ∧
    (∀ h, (cs.foldl (fun pool c => pool.updateParent c it add) pool).getMemPoolChildren h =
      pool.getMemPoolChildren h) ∧
    (∀ h p, p ∈ (cs.foldl (fun pool c => pool.updateParent c it add) pool).getMemPoolParents h ↔
      if add then p ∈ pool.getMemPoolParents h ∨ (h ∈ cs ∧ p = it)
      else p ∈ pool.getMemPoolParents h ∧ ¬ (h ∈ cs ∧ p = it)) := by
  induction cs generalizing pool with
  | nil =>
    refine ⟨⟨rfl, rfl, rfl⟩, fun _ => rfl, fun h p => ?_⟩
    cases add <;> simp
  | cons c cs ih =>
    obtain ⟨hSame, hChildren, hParents⟩ := @ih (pool.updateParent c it add)
    have hFirst : SameBut pool (pool.updateParent c it add) := ⟨rfl, rfl, rfl⟩
    rw [List.foldl_cons]
    refine ⟨hFirst.trans hSame, fun h => ?_, fun h p => ?_⟩
    · rw [hChildren, updateParent_children]
    · rw [hParents, updateParent_parents]
      by_cases hEq : c = h
      · subst hEq
        cases add <;> simp <;> tauto
      · cases add <;> simp [hEq, Ne.symm hEq]

/-! ## Ancestors by the links -/

/-- The links have the one as a parent of the other. -/
def Parent (pool : CTxMemPool) (a b : UInt256) : Prop := a ∈ pool.getMemPoolParents b

/-- The links lead up from the second to the first. -/
def Ancestor (pool : CTxMemPool) : UInt256 → UInt256 → Prop := TransGen pool.Parent

/-- **The links are in order**: between entries, the same in both directions, and in no circle.
The costs of all entries together fit into an `int`. -/
structure Linked (pool : CTxMemPool) : Prop where
  hash : ∀ (h : UInt256) (e : CTxMemPoolEntry), pool.mapTx[h]? = some e → e.tx.hash = h
  both : ∀ a b, b ∈ pool.getMemPoolChildren a ↔ pool.Parent a b
  within : ∀ a b, pool.Parent a b → a ∈ pool.hashes ∧ b ∈ pool.hashes
  acyclic : ∀ h, ¬ pool.Ancestor h h
  cost : ∀ (h : UInt256) (e : CTxMemPoolEntry), pool.mapTx[h]? = some e → 0 ≤ e.sigOpCost
  costs : ∑ h ∈ pool.hashes, (pool.own h).2 < 2 ^ 31

/-- **The sums are right** for a relation of ancestors and descendants. -/
structure Summed (pool : CTxMemPool) (rel : UInt256 → UInt256 → Prop) : Prop where
  ancestors : ∀ (h : UInt256) (e : CTxMemPoolEntry), pool.mapTx[h]? = some e →
    e.ancestorState = e.own + sumOver pool.hashes (rel · h) pool.own
  descendants : ∀ (h : UInt256) (e : CTxMemPoolEntry), pool.mapTx[h]? = some e →
    e.descendantState = e.share + sumOver pool.hashes (rel h) pool.share

variable {a : UInt256} {entry : CTxMemPoolEntry} {parentHashes start known : Finset UInt256}

theorem Linked.ancestor_within (hLinked : pool.Linked) {b : UInt256} (h : pool.Ancestor a b) :
    a ∈ pool.hashes ∧ b ∈ pool.hashes :=
  transGen_within hLinked.within h

/-- No sum of costs is too great for an `int`. -/
theorem Linked.cost_sum (hLinked : pool.Linked) (hs : s ⊆ pool.hashes) :
    0 ≤ (∑ a ∈ s, pool.own a).2 ∧ (∑ a ∈ s, pool.own a).2 < 2 ^ 31 := by
  have hNonneg : ∀ h ∈ pool.hashes, 0 ≤ (pool.own h).2 := by
    intro h hIn
    obtain ⟨e, hEntry⟩ := exists_entry hIn
    rw [own_of_some hEntry]
    exact hLinked.cost h e hEntry
  rw [Prod.snd_sum]
  constructor
  · exact sum_nonneg fun h hIn => hNonneg h (hs hIn)
  · exact lt_of_le_of_lt (sum_le_sum_of_subset_of_nonneg hs fun h hIn _ => hNonneg h hIn)
      hLinked.costs

theorem Linked.cost_one (hLinked : pool.Linked) (hIn : h ∈ pool.hashes) :
    0 ≤ (pool.own h).2 ∧ (pool.own h).2 < 2 ^ 31 := by
  have hOne := hLinked.cost_sum (singleton_subset_iff.mpr hIn)
  rwa [sum_singleton] at hOne

/-! ## The walks -/

theorem stageParents_ok {l : List UInt256}
    {st st' : Finset UInt256 × Finset UInt256} (h : stageParents limits l st = .ok st') :
    st' = l.foldl (visit fun _ => none) st := by
  induction l generalizing st with
  | nil => exact (Except.ok.inj h).symm
  | cons phash l ih =>
    dsimp only [stageParents] at h
    split at h
    case isTrue => cases h
    case isFalse => exact ih h

/-- When no limit is exceeded the ancestors are those of the plain walk. -/
theorem ancestorsLoop_ok {fuel : Nat} {total : Int} {setAncestors : Finset UInt256}
    (h : pool.ancestorsLoop entry limits fuel total parentHashes setAncestors = .ok result) :
    result = walk pool.getMemPoolParents (fun _ => none) fuel parentHashes setAncestors := by
  induction fuel generalizing total parentHashes setAncestors with
  | zero => exact (Except.ok.inj h).symm
  | succ fuel ih =>
    rw [ancestorsLoop] at h
    rw [walk]
    by_cases hSome : parentHashes.Nonempty
    · rw [dif_pos hSome] at h ⊢
      dsimp only at h
      split at h
      case isTrue => cases h
      split at h
      case isTrue => cases h
      split at h
      case isTrue => cases h
      cases hStage : stageParents limits
          (inOrder (pool.getMemPoolParents (parentHashes.min' hSome)))
          (parentHashes.erase (parentHashes.min' hSome),
            insert (parentHashes.min' hSome) setAncestors) with
      | error errString =>
        rw [hStage] at h
        cases h
      | ok st =>
        rw [hStage] at h
        rw [ih h, stageParents_ok hStage]
        rfl
    · rw [dif_neg hSome] at h ⊢
      exact (Except.ok.inj h).symm

theorem stageParents_noLimit (l : List UInt256) (st : Finset UInt256 × Finset UInt256) :
    ∃ st', stageParents nNoLimit l st = .ok st' := by
  induction l generalizing st with
  | nil => exact ⟨st, rfl⟩
  | cons phash l ih => exact ih _

/-- Without limits the loop ends well. -/
theorem ancestorsLoop_noLimit (entry : CTxMemPoolEntry) (fuel : Nat) (total : Int)
    (parentHashes setAncestors : Finset UInt256) :
    pool.ancestorsLoop entry nNoLimit fuel total parentHashes setAncestors =
      .ok (walk pool.getMemPoolParents (fun _ => none) fuel parentHashes setAncestors) := by
  suffices hOk : ∃ result,
      pool.ancestorsLoop entry nNoLimit fuel total parentHashes setAncestors = .ok result by
    obtain ⟨result, hResult⟩ := hOk
    rw [hResult, ancestorsLoop_ok hResult]
  induction fuel generalizing total parentHashes setAncestors with
  | zero => exact ⟨_, rfl⟩
  | succ fuel ih =>
    rw [ancestorsLoop]
    by_cases hSome : parentHashes.Nonempty
    · rw [dif_pos hSome]
      obtain ⟨st, hStage⟩ := stageParents_noLimit
        (inOrder (pool.getMemPoolParents (parentHashes.min' hSome)))
        (parentHashes.erase (parentHashes.min' hSome),
          insert (parentHashes.min' hSome) setAncestors)
      obtain ⟨result, hRest⟩ := ih
        (total + pool.valueAt (parentHashes.min' hSome) (·.nTxSize)) st.1 st.2
      refine ⟨result, ?_⟩
      simp only [nNoLimit, exceeds, Bool.false_eq_true, if_false] at hStage ⊢
      rw [hStage]
      exact hRest
    · rw [dif_neg hSome]
      exact ⟨_, rfl⟩

/-- The inputs whose transaction is in the pool. -/
def inPoolParents (pool : CTxMemPool) (tx : CTransaction) : Finset UInt256 :=
  (tx.vin.map (·.prevout.hash)).toFinset ∩ pool.hashes

theorem mem_inPoolParents {tx : CTransaction} :
    a ∈ pool.inPoolParents tx ↔ a ∈ pool.hashes ∧ ∃ i ∈ tx.vin, i.prevout.hash = a := by
  unfold inPoolParents
  rw [mem_inter, List.mem_toFinset, List.mem_map, and_comm]

theorem searchParents_ok {vin : List CTxIn}
    (h : pool.searchParents limits vin parentHashes = .ok result) :
    result = parentHashes ∪ ((vin.map (·.prevout.hash)).toFinset ∩ pool.hashes) := by
  induction vin generalizing parentHashes with
  | nil =>
    rw [← Except.ok.inj h]
    simp
  | cons txin vin ih =>
    dsimp only [searchParents] at h
    rw [List.map_cons, List.toFinset_cons]
    split at h
    case isTrue hHas =>
      split at h
      case isTrue => cases h
      case isFalse =>
        rw [ih h, insert_inter_of_mem (has_iff.mp hHas), union_insert, insert_union]
    case isFalse hNot =>
      rw [ih h, insert_inter_of_notMem fun hIn => hNot (has_iff.mpr hIn)]

theorem searchParents_noLimit (vin : List CTxIn) (parentHashes : Finset UInt256) :
    ∃ result, pool.searchParents nNoLimit vin parentHashes = .ok result := by
  induction vin generalizing parentHashes with
  | nil => exact ⟨parentHashes, rfl⟩
  | cons txin vin ih =>
    rw [searchParents]
    split
    case isTrue => exact ih _
    case isFalse => exact ih _

/-- Where the walk upwards starts. -/
def walkStart (pool : CTxMemPool) (entry : CTxMemPoolEntry) (fSearchForParents : Bool) :
    Finset UInt256 :=
  if fSearchForParents then pool.inPoolParents entry.tx
  else pool.getMemPoolParents entry.tx.hash

theorem calculateMemPoolAncestors_ok {fSearchForParents : Bool}
    (h : pool.calculateMemPoolAncestors entry limits fSearchForParents = .ok result) :
    result = walk pool.getMemPoolParents (fun _ => none) pool.mapTx.size
      (pool.walkStart entry fSearchForParents) ∅ := by
  unfold calculateMemPoolAncestors at h
  unfold walkStart
  cases fSearchForParents with
  | false => exact ancestorsLoop_ok h
  | true =>
    cases hSearch : pool.searchParents limits entry.tx.vin ∅ with
    | error errString =>
      rw [hSearch] at h
      cases h
    | ok parentHashes =>
      rw [hSearch] at h
      rw [ancestorsLoop_ok h, searchParents_ok hSearch, empty_union]
      rfl

theorem calculateMemPoolAncestors_noLimit (entry : CTxMemPoolEntry) (fSearchForParents : Bool) :
    ∃ result, pool.calculateMemPoolAncestors entry nNoLimit fSearchForParents = .ok result := by
  unfold calculateMemPoolAncestors
  cases fSearchForParents with
  | false => exact ⟨_, ancestorsLoop_noLimit _ _ _ _ _⟩
  | true =>
    obtain ⟨parentHashes, hSearch⟩ := pool.searchParents_noLimit entry.tx.vin ∅
    refine ⟨walk pool.getMemPoolParents (fun _ => none) pool.mapTx.size parentHashes ∅, ?_⟩
    rw [hSearch]
    exact ancestorsLoop_noLimit _ _ _ _ _

theorem ancestorsOf_eq (entry : CTxMemPoolEntry) (fSearchForParents : Bool) :
    pool.ancestorsOf entry fSearchForParents = walk pool.getMemPoolParents (fun _ => none)
      pool.mapTx.size (pool.walkStart entry fSearchForParents) ∅ := by
  obtain ⟨result, hResult⟩ := pool.calculateMemPoolAncestors_noLimit entry fSearchForParents
  unfold ancestorsOf
  rw [hResult]
  exact calculateMemPoolAncestors_ok hResult

/-- **Upwards** the walk finds the start and its ancestors. -/
theorem Linked.mem_walk_parents (hLinked : pool.Linked)
    (hStart : start ⊆ pool.hashes) (a : UInt256) :
    a ∈ walk pool.getMemPoolParents (fun _ => none) pool.mapTx.size start ∅ ↔
      ∃ p ∈ start, a = p ∨ pool.Ancestor a p := by
  rw [mem_walk (fun x _ y hy => (hLinked.within y x hy).1) hStart (empty_subset _)
    (fun z hz => absurd hz (notMem_empty z)) (le_of_eq card_hashes)]
  have hPath : ∀ p, Reaches pool.getMemPoolParents p a ↔ a = p ∨ pool.Ancestor a p := by
    intro p
    have hSwap : Reaches pool.getMemPoolParents p a ↔ ReflTransGen pool.Parent a p :=
      reflTransGen_swap
    rw [hSwap, reflTransGen_iff_eq_or_transGen, eq_comm]
    rfl
  simp only [hPath, notMem_empty, false_or]

/-- **Downwards** it finds the start and its descendants, beside those that were known. -/
theorem Linked.mem_walk_children (hLinked : pool.Linked)
    (hStart : start ⊆ pool.hashes) (hKnown : known ⊆ pool.hashes)
    (hClosed : ∀ a ∈ known, ∀ b, pool.Parent a b → b ∈ known) (d : UInt256) :
    d ∈ walk pool.getMemPoolChildren (fun _ => none) pool.mapTx.size start known ↔
      d ∈ known ∨ ∃ p ∈ start, d = p ∨ pool.Ancestor p d := by
  rw [mem_walk (fun x _ y hy => (hLinked.within x y ((hLinked.both x y).mp hy)).2) hStart hKnown
    (fun z hz y hy => .inl (hClosed z hz y ((hLinked.both z y).mp hy))) (le_of_eq card_hashes)]
  have hPath : ∀ p, Reaches pool.getMemPoolChildren p d ↔ d = p ∨ pool.Ancestor p d := by
    intro p
    have hSame : (fun a b => b ∈ pool.getMemPoolChildren a) = pool.Parent := by
      funext a b
      exact propext (hLinked.both a b)
    unfold Reaches
    rw [hSame, reflTransGen_iff_eq_or_transGen]
    rfl
  simp only [hPath]

theorem mem_ancestorsOf_links (hLinked : pool.Linked)
    (hEntry : pool.mapTx[h]? = some e) (a : UInt256) :
    a ∈ pool.ancestorsOf e false ↔ pool.Ancestor a h := by
  have hStart : pool.walkStart e false = pool.getMemPoolParents h := by
    unfold walkStart
    rw [hLinked.hash h e hEntry]
    rfl
  rw [ancestorsOf_eq, hStart, hLinked.mem_walk_parents fun p hp => (hLinked.within p h hp).1]
  constructor
  · rintro ⟨p, hp, rfl | hAbove⟩
    · exact .single hp
    · exact hAbove.tail hp
  · intro hAbove
    obtain ⟨p, hPath, hp⟩ := TransGen.tail'_iff.mp hAbove
    refine ⟨p, hp, ?_⟩
    rcases reflTransGen_iff_eq_or_transGen.mp hPath with hEq | hAbove
    · exact .inl hEq.symm
    · exact .inr hAbove

theorem mem_ancestorsOf_search (hLinked : pool.Linked) (entry : CTxMemPoolEntry) (a : UInt256) :
    a ∈ pool.ancestorsOf entry true ↔
      ∃ p ∈ pool.inPoolParents entry.tx, a = p ∨ pool.Ancestor a p := by
  rw [ancestorsOf_eq]
  exact hLinked.mem_walk_parents inter_subset_right a

theorem ancestorsOf_subset (hLinked : pool.Linked) (entry : CTxMemPoolEntry) :
    pool.ancestorsOf entry true ⊆ pool.hashes := by
  intro a ha
  obtain ⟨p, hp, rfl | hAbove⟩ := (mem_ancestorsOf_search hLinked entry a).mp ha
  · exact (mem_inPoolParents.mp hp).1
  · exact (hLinked.ancestor_within hAbove).1

theorem mem_calculateDescendants (hLinked : pool.Linked) {it : UInt256}
    (hIt : it ∈ pool.hashes) (hKnown : known ⊆ pool.hashes)
    (hClosed : ∀ a ∈ known, ∀ b, pool.Parent a b → b ∈ known) (d : UInt256) :
    d ∈ pool.calculateDescendants it known ↔ d ∈ known ∨ d = it ∨ pool.Ancestor it d := by
  unfold calculateDescendants
  split
  case isTrue hOld =>
    rw [hLinked.mem_walk_children (empty_subset _) hKnown hClosed]
    simp only [notMem_empty, false_and, exists_false, or_false]
    constructor
    · exact .inl
    · -- what is below a known entry is known
      rintro (hd | rfl | hBelow)
      · exact hd
      · exact hOld
      · induction hBelow with
        | single hStep => exact hClosed it hOld _ hStep
        | tail _ hStep ih => exact hClosed _ ih _ hStep
  case isFalse =>
    rw [hLinked.mem_walk_children (singleton_subset_iff.mpr hIt) hKnown hClosed]
    simp only [mem_singleton, exists_eq_left]

end CTxMemPool

end Electrum
