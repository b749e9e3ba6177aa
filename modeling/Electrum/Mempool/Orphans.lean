import Electrum.Lib.Fold
import Electrum.Lib.OrderedMap
import Electrum.Primitives.Block

/-!
# Orphan transactions

Transactions whose inputs are not known yet wait in a map by their hashes.  A second map has, for
each outpoint, the waiting transactions that spend it; its sets hold iterators into the first one,
which are modelled by the hashes they stand at.

Main results:
* `OrphanMaps.Inverse.add`, `OrphanMaps.Inverse.erase` — an orphan comes or goes
* `orphans_inverse` — the second map is the inverse of the first after any calls, and the limit is kept
-/

namespace Electrum

open List Option

def ORPHAN_TX_EXPIRE_TIME : Int := 20 * 60
def ORPHAN_TX_EXPIRE_INTERVAL : Int := 5 * 60
def MAX_STANDARD_TX_WEIGHT : Nat := 400000

structure COrphanTx where
  tx : CTransaction
  fromPeer : Int
  nTimeExpire : Int

/-- The outpoints a transaction spends, one for each input. -/
def CTransaction.prevouts (tx : CTransaction) : List (UInt256 × Nat) :=
  tx.vin.map fun txin => (txin.prevout.hash, txin.prevout.n)

structure OrphanMaps where
  mapOrphanTransactions : Map UInt256 COrphanTx := ∅
  mapOrphanTransactionsByPrev : Map (UInt256 × Nat) (Finset UInt256) := ∅
  nNextSweep : Int := 0

namespace OrphanMaps

/-! ## The calls -/

/-- `AddOrphanTx`, for a transaction of a weight. -/
def addOrphanTx (maps : OrphanMaps) (tx : CTransaction) (peer nNow : Int) (sz : Nat) : OrphanMaps :=
  if maps.mapOrphanTransactions.contains tx.hash then maps
  else if MAX_STANDARD_TX_WEIGHT ≤ sz then maps
  else
    { maps with
      mapOrphanTransactions :=
        maps.mapOrphanTransactions.insert tx.hash ⟨tx, peer, nNow + ORPHAN_TX_EXPIRE_TIME⟩
      mapOrphanTransactionsByPrev := tx.prevouts.foldl (fun m o =>
        m.alter o fun set => some (insert tx.hash (set.getD ∅))) maps.mapOrphanTransactionsByPrev }

/-- The entry of an outpoint; one with an empty set is erased. -/
def spendersEntry (set : Finset UInt256) : Option (Finset UInt256) := if set = ∅ then none else some set

def eraseOrphanTx (maps : OrphanMaps) (hash : UInt256) : OrphanMaps :=
  match maps.mapOrphanTransactions[hash]? with
  | none => maps
  | some it =>
    { maps with
      mapOrphanTransactions := maps.mapOrphanTransactions.erase hash
      mapOrphanTransactionsByPrev := it.tx.prevouts.foldl (fun m o =>
        m.alter o fun set => spendersEntry ((set.getD ∅).erase hash)) maps.mapOrphanTransactionsByPrev }

/-- One turn of a loop over the orphans that erases some of them. -/
def eraseWhen (maps : OrphanMaps) (cond : COrphanTx → Bool) (maybeErase : UInt256) : OrphanMaps :=
  match maps.mapOrphanTransactions[maybeErase]? with
  | none => maps
  | some it => if cond it then maps.eraseOrphanTx it.tx.hash else maps

def eraseOrphansFor (maps : OrphanMaps) (peer : Int) : OrphanMaps :=
  maps.mapOrphanTransactions.keys.foldl (eraseWhen · fun it => it.fromPeer == peer) maps

/-- The sweep of `LimitOrphanTxSize`. -/
def sweep (maps : OrphanMaps) (nNow : Int) : OrphanMaps :=
  if maps.nNextSweep ≤ nNow then
    let r := maps.mapOrphanTransactions.keys.foldl (fun (maps, nMinExpTime) maybeErase =>
      (maps.eraseWhen (·.nTimeExpire ≤ nNow) maybeErase,
        match maps.mapOrphanTransactions[maybeErase]? with
        | none => nMinExpTime
        | some it => if it.nTimeExpire ≤ nNow then nMinExpTime else min it.nTimeExpire nMinExpTime))
      (maps, nNow + ORPHAN_TX_EXPIRE_TIME - ORPHAN_TX_EXPIRE_INTERVAL)
    { r.1 with nNextSweep := r.2 + ORPHAN_TX_EXPIRE_INTERVAL }
  else maps

/-- The orphan at `lower_bound`, or the first one. -/
def victim (maps : OrphanMaps) (randomhash : UInt256) : Option UInt256 :=
  (maps.mapOrphanTransactions.keys.find? (randomhash ≤ ·)).or maps.mapOrphanTransactions.keys.head?

/-- The second loop of `LimitOrphanTxSize`, as far as `fuel` turns. -/
def evict (getRandHash : Nat → UInt256) (nMaxOrphans : Nat) : Nat → OrphanMaps → OrphanMaps
  | 0, maps => maps
  | fuel + 1, maps =>
    if nMaxOrphans < maps.mapOrphanTransactions.size then
      match maps.victim (getRandHash fuel) with
      | none => maps
      | some it => evict getRandHash nMaxOrphans fuel (maps.eraseOrphanTx it)
    else maps

def limitOrphanTxSize (maps : OrphanMaps) (nMaxOrphans : Nat) (nNow : Int)
    (getRandHash : Nat → UInt256) : OrphanMaps :=
  let maps := maps.sweep nNow
  evict getRandHash nMaxOrphans maps.mapOrphanTransactions.size maps

/-! ## The invariant -/

/-- The orphans that are listed for an outpoint. -/
def listed (maps : OrphanMaps) (o : UInt256 × Nat) : Finset UInt256 :=
  (maps.mapOrphanTransactionsByPrev[o]?).getD ∅

/-- The second map has each outpoint with exactly the orphans that spend it, and no empty set. -/
structure Inverse (maps : OrphanMaps) : Prop where
  listed : ∀ o hash, hash ∈ maps.listed o ↔
    ∃ it : COrphanTx, maps.mapOrphanTransactions[hash]? = some it ∧ o ∈ it.tx.prevouts
  nonempty : ∀ o : UInt256 × Nat, maps.mapOrphanTransactionsByPrev[o]? ≠ some ∅
  keyed : ∀ (hash : UInt256) it, maps.mapOrphanTransactions[hash]? = some it → it.tx.hash = hash

variable {maps : OrphanMaps}

theorem spendersEntry_getD (set : Finset UInt256) : (spendersEntry set).getD ∅ = set := by
  unfold spendersEntry
  split <;> simp_all

/-- The same change of the sets of some outpoints, also if one is listed twice. -/
theorem foldl_spenders {f : Finset UInt256 → Finset UInt256} (hTwice : ∀ set, f (f set) = f set)
    (l : List (UInt256 × Nat)) (m : Map (UInt256 × Nat) (Finset UInt256)) (o : UInt256 × Nat) :
    (l.foldl (fun m o => m.alter o fun set => spendersEntry (f (set.getD ∅))) m)[o]? =
      if o ∈ l then spendersEntry (f (m[o]?.getD ∅)) else m[o]? := by
  induction l generalizing m with
  | nil => rfl
  | cons o' rest ih =>
    rw [foldl_cons, ih, Std.ExtTreeMap.getElem?_alter]
    by_cases hEq : o' = o
    · subst hEq
      simp [spendersEntry_getD, hTwice]
    · simp [hEq, Ne.symm hEq]

theorem Inverse.relist (h : maps.Inverse) {f : Finset UInt256 → Finset UInt256}
    (hTwice : ∀ set, f (f set) = f set) {l : List (UInt256 × Nat)} {m : Map UInt256 COrphanTx}
    (hListed : ∀ o hash, hash ∈ (if o ∈ l then f (maps.listed o) else maps.listed o) ↔
      ∃ it : COrphanTx, m[hash]? = some it ∧ o ∈ it.tx.prevouts)
    (hKeyed : ∀ (hash : UInt256) it, m[hash]? = some it → it.tx.hash = hash) (n : Int) :
    Inverse ⟨m, l.foldl (fun m o => m.alter o fun set => spendersEntry (f (set.getD ∅)))
      maps.mapOrphanTransactionsByPrev, n⟩ := by
  refine ⟨fun o hash => ?_, fun o => ?_, hKeyed⟩
  · rw [← hListed, OrphanMaps.listed, foldl_spenders hTwice]
    split
    · rw [spendersEntry_getD]
      rfl
    · rfl
  · rw [foldl_spenders hTwice]
    split
    · unfold spendersEntry
      split <;> simp_all
    · exact h.nonempty o

/-- **An orphan comes.** -/
theorem Inverse.add (h : maps.Inverse) (tx : CTransaction) (peer nNow : Int) (sz : Nat) :
    (maps.addOrphanTx tx peer nNow sz).Inverse := by
  unfold addOrphanTx
  split
  · exact h
  split
  · exact h
  case isFalse hNew _ =>
    have hEntry (set : Option (Finset UInt256)) :
        some (insert tx.hash (set.getD ∅)) = spendersEntry (insert tx.hash (set.getD ∅)) := by
      simp [spendersEntry]
    simp only [hEntry]
    refine h.relist (by simp) (fun o hash => ?_) (fun hash it hIt => ?_) _
    · have hOld := h.listed o hash
      rw [Std.ExtTreeMap.getElem?_insert]
      by_cases hEq : tx.hash = hash
      · split <;> simp_all
      · split <;> simp_all [Ne.symm hEq]
    · rw [Std.ExtTreeMap.getElem?_insert] at hIt
      split at hIt
      case isTrue hEq =>
        cases hIt
        exact Std.LawfulEqCmp.eq_of_compare hEq
      case isFalse => exact h.keyed hash it hIt

/-- **An orphan goes.** -/
theorem Inverse.erase (h : maps.Inverse) (hash : UInt256) : (maps.eraseOrphanTx hash).Inverse := by
  unfold eraseOrphanTx
  split
  · exact h
  case h_2 it hIt =>
    refine h.relist (f := (·.erase hash)) (fun _ => Finset.erase_idem) (fun o hash' => ?_)
      (fun hash' it' hIt' => ?_) _
    · have hOld := h.listed o hash'
      rw [Std.ExtTreeMap.getElem?_erase]
      by_cases hEq : hash = hash'
      · split <;> simp_all
      · split <;> simp_all [Ne.symm hEq]
    · rw [Std.ExtTreeMap.getElem?_erase] at hIt'
      split at hIt'
      · cases hIt'
      · exact h.keyed hash' it' hIt'

theorem Inverse.eraseWhen (h : maps.Inverse) (cond : COrphanTx → Bool) (maybeErase : UInt256) :
    (maps.eraseWhen cond maybeErase).Inverse := by
  unfold OrphanMaps.eraseWhen
  split
  · exact h
  split
  · exact h.erase _
  · exact h

theorem Inverse.eraseOrphansFor (h : maps.Inverse) (peer : Int) : (maps.eraseOrphansFor peer).Inverse :=
  foldl_invariant (fun _ maps => OrphanMaps.Inverse maps) _ h fun _ _ _ _ _ hMaps => hMaps.eraseWhen _ _

theorem Inverse.sweep (h : maps.Inverse) (nNow : Int) : (maps.sweep nNow).Inverse := by
  unfold OrphanMaps.sweep
  split
  · suffices hKept : Inverse (Prod.fst _) from ⟨hKept.listed, hKept.nonempty, hKept.keyed⟩
    refine foldl_invariant (fun _ (st : OrphanMaps × Int) => st.1.Inverse) _ h ?_
    exact fun _ _ _ _ _ hMaps => hMaps.eraseWhen _ _
  · exact h

theorem victim_mem {randomhash it : UInt256} (hIt : maps.victim randomhash = some it) :
    it ∈ maps.mapOrphanTransactions := by
  rw [← Std.ExtTreeMap.mem_keys]
  rcases or_eq_some_iff.mp hIt with hFound | ⟨-, hFirst⟩
  · exact mem_of_find?_eq_some hFound
  · exact mem_of_mem_head? hFirst

theorem Inverse.evict (h : maps.Inverse) (getRandHash : Nat → UInt256) (nMaxOrphans fuel : Nat) :
    (evict getRandHash nMaxOrphans fuel maps).Inverse := by
  fun_induction OrphanMaps.evict with
  | case1 => exact h
  | case2 => exact h
  | case3 _ _ _ _ _ ih => exact ih (h.erase _)
  | case4 => exact h

/-- Each turn erases an orphan, so that a turn for each of them is enough. -/
theorem size_evict (getRandHash : Nat → UInt256) {nMaxOrphans fuel : Nat}
    (hFuel : maps.mapOrphanTransactions.size ≤ nMaxOrphans + fuel) :
    (evict getRandHash nMaxOrphans fuel maps).mapOrphanTransactions.size ≤ nMaxOrphans := by
  fun_induction OrphanMaps.evict with
  | case1 => exact hFuel
  | case2 fuel maps hFull hNone =>
    -- There is no orphan to evict only when there are none.
    have hKeys := maps.mapOrphanTransactions.length_keys
    rw [victim, or_eq_none_iff, head?_eq_none_iff] at hNone
    rw [hNone.2, length_nil] at hKeys
    omega
  | case3 fuel maps hFull it hIt ih =>
    refine ih ?_
    have hSize := maps.mapOrphanTransactions.size_erase (k := it)
    rw [if_pos (Std.ExtTreeMap.mem_iff_contains.mp (victim_mem hIt))] at hSize
    rw [eraseOrphanTx, getElem?_pos _ _ (victim_mem hIt)]
    change (maps.mapOrphanTransactions.erase it).size ≤ _
    omega
  | case4 => omega

end OrphanMaps

/-- The calls. -/
inductive OrphanCall where
  | addOrphanTx (tx : CTransaction) (peer nNow : Int) (sz : Nat)
  | eraseOrphanTx (hash : UInt256)
  | eraseOrphansFor (peer : Int)
  | limitOrphanTxSize (nMaxOrphans : Nat) (nNow : Int) (getRandHash : Nat → UInt256)

def OrphanMaps.call (maps : OrphanMaps) : OrphanCall → OrphanMaps
  | .addOrphanTx tx peer nNow sz => maps.addOrphanTx tx peer nNow sz
  | .eraseOrphanTx hash => maps.eraseOrphanTx hash
  | .eraseOrphansFor peer => maps.eraseOrphansFor peer
  | .limitOrphanTxSize nMaxOrphans nNow getRandHash => maps.limitOrphanTxSize nMaxOrphans nNow getRandHash

/-- **The maps stay inverse.**  After any calls the second map is the inverse of the first, and a
call of `LimitOrphanTxSize` leaves at most as many orphans as it is told, whatever the random
hashes. -/
theorem orphans_inverse (calls : List OrphanCall) :
    (calls.foldl OrphanMaps.call {}).Inverse ∧ ∀ nMaxOrphans nNow getRandHash,
      ((calls.foldl OrphanMaps.call {}).limitOrphanTxSize nMaxOrphans nNow
        getRandHash).mapOrphanTransactions.size ≤ nMaxOrphans := by
  refine ⟨?_, fun nMaxOrphans nNow getRandHash => OrphanMaps.size_evict getRandHash (Nat.le_add_left _ _)⟩
  refine foldl_invariant (fun _ maps => OrphanMaps.Inverse maps) calls ?_ fun _ call _ maps _ hMaps => ?_
  · refine ⟨fun o hash => ?_, fun o => ?_, fun hash it hIt => ?_⟩ <;> simp_all [OrphanMaps.listed]
  · cases call with
    | addOrphanTx tx peer nNow sz => exact hMaps.add tx peer nNow sz
    | eraseOrphanTx hash => exact hMaps.erase hash
    | eraseOrphansFor peer => exact hMaps.eraseOrphansFor peer
    | limitOrphanTxSize nMaxOrphans nNow getRandHash =>
      exact (hMaps.sweep nNow).evict getRandHash nMaxOrphans _

end Electrum
