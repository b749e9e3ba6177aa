import Electrum.Mempool.FromBlock
import Electrum.Mempool.Prioritise
import Electrum.Lib.Run

/-!
# Package sums in every run

The pool changes by additions, by removals and by the return of the transactions of a disconnected
block.  Each keeps a consistent pool consistent, under the conditions under which the code calls it.

Main results:
* `packageRun_exact` — in every run the links are the spending relation and all sums are exact
* `resurrect_misses_grandchild` — a transaction that comes back between two of the pool leaves the
  sums of both wrong
-/

namespace Electrum

open Relation

/-- What changes the links and the sums of the pool. -/
inductive PackageOp
  | add (entry : CTxMemPoolEntry) (limits : PackageLimits)
  | removeStaged (stage : Finset UInt256) (updateDescendants : Bool)
  | resurrect (entries : List CTxMemPoolEntry)

namespace PackageOp

def apply (pool : CTxMemPool) : PackageOp → CTxMemPool
  | add entry limits =>
    match pool.calculateMemPoolAncestors entry limits true with
    | .ok setAncestors => pool.addUnchecked entry setAncestors
    | .error _ => pool
  | removeStaged stage updateDescendants => pool.removeStaged stage updateDescendants
  | resurrect entries => pool.resurrect entries

/-- **When the code does it.** A transaction is added that is new, conflicts with none and has no
children in the pool; entries are removed with their descendants, or as transactions of a block with
their ancestors; the transactions of a block come back parents first, and have no parents in the
pool outside the block. -/
def Regular (pool : CTxMemPool) : PackageOp → Prop
  | add entry _ => pool.NewEntry entry ∧ pool.NoConflict entry.tx ∧ pool.NoChildren entry.tx
  | removeStaged stage updateDescendants => pool.Removable stage updateDescendants
  | resurrect entries => pool.Resurrectable entries

/-- Whatever the limits, the ancestors that are found are all of them. -/
theorem apply_add {pool : CTxMemPool} (entry : CTxMemPoolEntry) (limits : PackageLimits) :
    (add entry limits).apply pool = pool.add entry ∨ (add entry limits).apply pool = pool := by
  dsimp only [apply]
  cases hAncestors : pool.calculateMemPoolAncestors entry limits true with
  | error errString => exact .inr rfl
  | ok setAncestors =>
    left
    rw [CTxMemPool.calculateMemPoolAncestors_ok hAncestors, ← CTxMemPool.ancestorsOf_eq]
    rfl

/-- **Step.** -/
theorem apply_consistent {pool : CTxMemPool} (h : pool.Consistent) {op : PackageOp}
    (hRegular : op.Regular pool) : (op.apply pool).Consistent := by
  cases op with
  | add entry limits =>
    obtain ⟨hNew, hNoConflict, hNoChildren⟩ := hRegular
    rcases apply_add entry limits with hApply | hApply
    · rw [hApply]
      exact h.add hNew hNoConflict hNoChildren
    · rw [hApply]
      exact h
  | removeStaged stage updateDescendants => exact h.removeStaged hRegular
  | resurrect entries => exact h.resurrect hRegular

end PackageOp

/-- A step of a run. -/
def PackageStep (pool pool' : CTxMemPool) : Prop :=
  ∃ op : PackageOp, op.Regular pool ∧ pool' = op.apply pool

/-- **Run.** -/
theorem packageRun_consistent {pool : CTxMemPool} (hRun : ReflTransGen PackageStep {} pool) :
    pool.Consistent := by
  refine run_invariant hRun CTxMemPool.consistent_empty fun pool pool' h hStep => ?_
  obtain ⟨op, hRegular, rfl⟩ := hStep
  exact PackageOp.apply_consistent h hRegular

/-- **The links and the sums are exact** in every pool that a run reaches from the empty one. -/
theorem packageRun_exact {pool : CTxMemPool} (hRun : ReflTransGen PackageStep {} pool) :
    pool.PackagesExact :=
  (packageRun_consistent hRun).exact

/-! ## Runs -/

/-- A child alone in the pool, its parent in a block. -/
def orphanedChild : CTxMemPool :=
  (PackageOp.add (looseEntry 2 [⟨1, 0⟩]) {}).apply {}

/-- The block is disconnected: the parent comes back. -/
def parentBack : CTxMemPool := orphanedChild.resurrect [looseEntry 1 [⟨100, 0⟩]]

theorem orphanedChild_reached : ReflTransGen PackageStep {} orphanedChild :=
  .single ⟨.add (looseEntry 2 [⟨1, 0⟩]) {}, ⟨⟨by decide +kernel, by decide +kernel,
    by decide +kernel, by decide +kernel, by decide +kernel, by decide +kernel, by decide +kernel⟩,
    by decide +kernel, by decide +kernel⟩, rfl⟩

/-- The child is added, its parent comes back and is confirmed again. -/
theorem packageRun_exact_parentBack : parentBack.PackagesExact ∧
    (parentBack.removeStaged {1} true).PackagesExact ∧
    parentBack.valueAt 2 (·.nModFeesWithAncestors) = 2000 ∧
    (parentBack.removeStaged {1} true).valueAt 2 (·.nModFeesWithAncestors) = 1000 := by
  have hBack : ReflTransGen PackageStep {} parentBack := by
    refine orphanedChild_reached.tail ⟨.resurrect [looseEntry 1 [⟨100, 0⟩]], ?_, rfl⟩
    exact ⟨⟨⟨by decide +kernel, by decide +kernel, by decide +kernel, by decide +kernel,
      by decide +kernel, by decide +kernel, by decide +kernel⟩, by decide +kernel, trivial⟩,
      List.pairwise_singleton _ _, by decide +kernel⟩
  have hConfirmed : ReflTransGen PackageStep {} (parentBack.removeStaged {1} true) := by
    refine hBack.tail ⟨.removeStaged {1} true, ⟨by decide +kernel, .inr ⟨rfl, ?_⟩⟩, rfl⟩
    intro b hb a hab
    rw [Finset.mem_singleton] at hb
    subst hb
    obtain ⟨ha, e, he, i, hi, hEq⟩ := hab
    have hNone : ∀ (h : UInt256) (e : CTxMemPoolEntry), parentBack.mapTx[h]? = some e →
        h = 1 → ∀ i ∈ e.tx.vin, i.prevout.hash ∉ parentBack.hashes := by decide +kernel
    exact absurd (hEq ▸ ha) (hNone 1 e he rfl i hi)
  exact ⟨packageRun_exact hBack, packageRun_exact hConfirmed, by decide +kernel, by decide +kernel⟩

/-- A child whose parent is not there, and its grandparent. -/
def childAndGrandparent : CTxMemPool :=
  (({} : CTxMemPool).add (looseEntry 3 [⟨2, 0⟩])).add (looseEntry 1 [⟨100, 0⟩])

/-- **The transaction between.** The parent comes back into a pool with its own parent and its
child: the child does not count its grandparent, nor the grandparent the child. -/
theorem resurrect_misses_grandchild : childAndGrandparent.Consistent ∧
    childAndGrandparent.AddedInTurn [looseEntry 2 [⟨1, 0⟩]] ∧
    ¬ (childAndGrandparent.resurrect [looseEntry 2 [⟨1, 0⟩]]).PackagesExact := by
  have hFirst : (({} : CTxMemPool).add (looseEntry 3 [⟨2, 0⟩])).Consistent :=
    CTxMemPool.consistent_empty.add ⟨by decide +kernel, by decide +kernel, by decide +kernel,
      by decide +kernel, by decide +kernel, by decide +kernel, by decide +kernel⟩
      (by decide +kernel) (by decide +kernel)
  refine ⟨hFirst.add ⟨by decide +kernel, by decide +kernel, by decide +kernel, by decide +kernel,
    by decide +kernel, by decide +kernel, by decide +kernel⟩ (by decide +kernel) (by decide +kernel),
    ⟨⟨by decide +kernel, by decide +kernel, by decide +kernel, by decide +kernel,
      by decide +kernel, by decide +kernel, by decide +kernel⟩, by decide +kernel, trivial⟩,
    fun hExact => ?_⟩
  generalize hPool : childAndGrandparent.resurrect [looseEntry 2 [⟨1, 0⟩]] = pool at hExact
  -- the child has two ancestors and counts one
  have hSpends : ∀ a b, a ∈ pool.getMemPoolParents b → pool.SpendsFrom a b := fun a b h =>
    (hExact.parents a b).mp h
  have hUp : pool.SpendsFrom 2 3 := hSpends 2 3 (by rw [← hPool]; decide +kernel)
  have hUpUp : pool.SpendsFrom 1 2 := hSpends 1 2 (by rw [← hPool]; decide +kernel)
  have hLeaf : ∀ d, ¬ pool.SpendsFrom 3 d := by
    rintro d ⟨-, e, he, hInput⟩
    have hAll : ∀ (h : UInt256) (e : CTxMemPoolEntry), pool.mapTx[h]? = some e →
        ¬ ∃ i ∈ e.tx.vin, i.prevout.hash = 3 := by
      rw [← hPool]
      decide +kernel
    exact hAll d e he hInput
  have hHashes : pool.hashes = {1, 2, 3} := by
    rw [← hPool]
    decide +kernel
  have hAbove : ∀ x, x ∈ ({1, 2} : Finset UInt256) ↔
      x ∈ pool.hashes ∧ TransGen pool.SpendsFrom x 3 := by
    intro x
    rw [hHashes]
    constructor
    · intro hx
      rw [Finset.mem_insert, Finset.mem_singleton] at hx
      rcases hx with rfl | rfl
      · exact ⟨by decide, .head hUpUp (.single hUp)⟩
      · exact ⟨by decide, .single hUp⟩
    · rintro ⟨hx, hPath⟩
      rw [Finset.mem_insert, Finset.mem_insert, Finset.mem_singleton] at hx
      rcases hx with rfl | rfl | rfl
      · decide
      · decide
      · obtain ⟨d, hd, -⟩ := TransGen.head'_iff.mp hPath
        exact absurd hd (hLeaf d)
  obtain ⟨e, he⟩ := CTxMemPool.exists_entry (show (3 : UInt256) ∈ pool.hashes by rw [hHashes]; decide)
  have hSum := hExact.sums.ancestors 3 e he
  rw [sumOver_eq pool.own hAbove] at hSum
  have hCount := congrArg (fun s => s.1.1) hSum
  have hStated : pool.valueAt 3 (·.nCountWithAncestors) = 2 := by
    rw [← hPool]
    decide +kernel
  have hTrue : (∑ x ∈ ({1, 2} : Finset UInt256), pool.own x).1.1 = 2 := by
    rw [← hPool]
    decide +kernel
  have hEntry : pool.valueAt 3 (·.nCountWithAncestors) = e.nCountWithAncestors := by
    unfold CTxMemPool.valueAt
    rw [he]
    rfl
  have hCount : e.nCountWithAncestors =
      1 + (∑ x ∈ ({1, 2} : Finset UInt256), pool.own x).1.1 := hCount
  omega

end Electrum
