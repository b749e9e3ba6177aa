import Electrum.Lib.Run
import Electrum.Mempool.Accept
import Electrum.Mempool.Contents
import Electrum.Validation.Grow

/-!
# The governance objects of the pool

`mapProposal`, `mapPaymentRequest`, `mapConsultation` and `mapAnswer` are to mirror the pool: what
they hold was created by a transaction of the pool.  Objects enter in the middle of an acceptance,
and only `removeForBlock` takes some out again, so the maps drift: a transaction that fails a later
check leaves its object behind, and so does one that is removed, expires or is trimmed.

Main results:
* `enterObjects_entered` — what an acceptance enters was created by its transaction
* `poolRun_mirrors` — the calls that keep the mirror
* `acceptToMemoryPool_leaves_proposal` — one that does not
-/

namespace Electrum

open CTxMemPool Electrum.Except List Relation Std.ExtTreeMap

/-! ## Objects and their creators -/

inductive DaoObject where
  | proposal (p : CProposal)
  | paymentRequest (r : CPaymentRequest)
  | consultation (c : CConsultation)
  | answer (a : CConsultationAnswer)

/-- The transaction created the object.  The first answers of a consultation have it as their
parent and name no transaction of their own. -/
def DaoObject.CreatedBy (tx : CTransaction) : DaoObject → Prop
  | .proposal p => tx.nVersion = CTransaction.PROPOSAL_VERSION ∧ p.hash = tx.hash
  | .paymentRequest r => tx.nVersion = CTransaction.PAYMENT_REQUEST_VERSION ∧ r.hash = tx.hash
  | .consultation c => tx.nVersion = CTransaction.CONSULTATION_VERSION ∧ c.hash = tx.hash
  | .answer a => (tx.nVersion = CTransaction.ANSWER_VERSION ∧ a.txhash = tx.hash) ∨
    (tx.nVersion = CTransaction.CONSULTATION_VERSION ∧ a.parent = tx.hash ∧ a.txhash = 0)

instance (tx : CTransaction) : DecidablePred (DaoObject.CreatedBy tx)
  | .proposal _ => inferInstanceAs (Decidable (_ ∧ _))
  | .paymentRequest _ => inferInstanceAs (Decidable (_ ∧ _))
  | .consultation _ => inferInstanceAs (Decidable (_ ∧ _))
  | .answer _ => inferInstanceAs (Decidable ((_ ∧ _) ∨ (_ ∧ _)))

namespace DaoMaps

variable {maps maps' maps'' : DaoMaps} {tx : CTransaction}

def Holds (maps : DaoMaps) : DaoObject → Prop
  | .proposal p => ∃ k : UInt256, maps.proposals[k]? = some p
  | .paymentRequest r => ∃ k : UInt256, maps.paymentRequests[k]? = some r
  | .consultation c => ∃ k : UInt256, maps.consultations[k]? = some c
  | .answer a => ∃ k : UInt256, maps.answers[k]? = some a

/-- The objects of a map. -/
def objectsOf {α : Type} (wrap : α → DaoObject) (m : Map UInt256 α) : List DaoObject :=
  m.toList.map fun it => wrap it.2

/-- The consultations and answers, which `removeForBlock` does not erase. -/
def consultationObjects (maps : DaoMaps) : List DaoObject :=
  objectsOf .consultation maps.consultations ++ objectsOf .answer maps.answers

def all (maps : DaoMaps) : List DaoObject :=
  objectsOf .proposal maps.proposals ++ objectsOf .paymentRequest maps.paymentRequests ++
    maps.consultationObjects

/-- An object that the transaction created is held. -/
def holdsFrom (maps : DaoMaps) (tx : CTransaction) : Bool :=
  maps.all.any fun o => decide (o.CreatedBy tx)

variable {o : DaoObject}

theorem mem_objectsOf {α : Type} {wrap : α → DaoObject} {m : Map UInt256 α} :
    o ∈ objectsOf wrap m ↔ ∃ a, (∃ k : UInt256, m[k]? = some a) ∧ wrap a = o := by
  unfold objectsOf
  rw [mem_map]
  constructor
  · rintro ⟨⟨k, a⟩, hIn, rfl⟩
    exact ⟨a, ⟨k, mem_toList_iff_getElem?_eq_some.mp hIn⟩, rfl⟩
  · rintro ⟨a, ⟨k, hk⟩, rfl⟩
    exact ⟨(k, a), mem_toList_iff_getElem?_eq_some.mpr hk, rfl⟩

theorem mem_all : o ∈ maps.all ↔ maps.Holds o := by
  simp only [all, consultationObjects, mem_append, mem_objectsOf]
  cases o <;> simp [Holds]

theorem holdsFrom_iff : maps.holdsFrom tx = true ↔ ∃ o, maps.Holds o ∧ o.CreatedBy tx := by
  simp only [holdsFrom, any_eq_true, mem_all, decide_eq_true_eq]

/-- Proposals and payment requests stand under their hashes. -/
structure Keyed (maps : DaoMaps) : Prop where
  proposals : ∀ (k : UInt256) (p : CProposal), maps.proposals[k]? = some p → p.hash = k
  paymentRequests : ∀ (k : UInt256) (r : CPaymentRequest),
    maps.paymentRequests[k]? = some r → r.hash = k

/-- **A transaction enters its objects**, beside those that are held already. -/
structure Entered (maps maps' : DaoMaps) (tx : CTransaction) : Prop where
  old : ∀ o, maps'.Holds o → maps.Holds o ∨ o.CreatedBy tx
  kept : ∀ o, maps.Holds o → maps'.Holds o
  changed : maps' = maps ∨ maps'.holdsFrom tx = true
  keyed : maps.Keyed → maps'.Keyed

namespace Entered

theorem refl (maps : DaoMaps) (tx : CTransaction) : Entered maps maps tx :=
  ⟨fun _ => .inl, fun _ => id, .inl rfl, id⟩

theorem trans (h : Entered maps maps' tx) (h' : Entered maps' maps'' tx) :
    Entered maps maps'' tx := by
  refine ⟨fun o ho => ?_, fun o ho => h'.kept o (h.kept o ho), ?_, h'.keyed ∘ h.keyed⟩
  · rcases h'.old o ho with hMid | hNew
    · exact h.old o hMid
    · exact .inr hNew
  · rcases h'.changed with rfl | hNew
    · exact h.changed
    · exact .inr hNew

end Entered

section Insert

variable {α : Type} {m : Map UInt256 α} {k : UInt256} {a b : α}

theorem insertIfNew_eq_some {k' : UInt256} : (m.insertIfNew k a)[k']? = some b ↔
    m[k']? = some b ∨ (m[k']? = none ∧ k' = k ∧ b = a) := by
  have hOne := Map.getElem?_foldl_insertIfNew a [k] m k'
  rw [foldl_cons, foldl_nil] at hOne
  rw [hOne]
  by_cases hEq : k' = k
  · cases m[k']? <;> simp [hEq, eq_comm]
  · cases m[k']? <;> simp [hEq]

theorem insertIfNew_of_some (h : m[k]? = some b) : m.insertIfNew k a = m := by
  refine ext_getElem? fun k' => Option.ext fun c => ?_
  rw [insertIfNew_eq_some]
  constructor
  · rintro (hOld | ⟨hNone, rfl, -⟩)
    · exact hOld
    · rw [h] at hNone
      cases hNone
  · exact .inl

/-- One of the maps takes an object that the transaction created. -/
theorem entered_insert (wrap : α → DaoObject) (set : Map UInt256 α → DaoMaps)
    (hHolds : ∀ m' o, (set m').Holds o ↔ (∃ b, (∃ k' : UInt256, m'[k']? = some b) ∧ wrap b = o) ∨
      ((∀ b, wrap b ≠ o) ∧ (set m).Holds o))
    (hKeyed : (set m).Keyed → (set (m.insertIfNew k a)).Keyed) (hCreated : (wrap a).CreatedBy tx) :
    Entered (set m) (set (m.insertIfNew k a)) tx := by
  refine ⟨fun o ho => ?_, fun o ho => ?_, ?_, hKeyed⟩
  · rcases (hHolds _ o).mp ho with ⟨b, ⟨k', hk'⟩, rfl⟩ | ⟨-, hOther⟩
    · rcases insertIfNew_eq_some.mp hk' with hOld | ⟨-, -, rfl⟩
      · exact .inl ((hHolds m _).mpr (.inl ⟨b, ⟨k', hOld⟩, rfl⟩))
      · exact .inr hCreated
    · exact .inl hOther
  · rcases (hHolds m o).mp ho with ⟨b, ⟨k', hk'⟩, rfl⟩ | hOther
    · exact (hHolds _ _).mpr (.inl ⟨b, ⟨k', insertIfNew_eq_some.mpr (.inl hk')⟩, rfl⟩)
    · exact (hHolds _ o).mpr (.inr hOther)
  · cases hOld : m[k]? with
    | some b => exact .inl (by rw [insertIfNew_of_some hOld])
    | none =>
      refine .inr (holdsFrom_iff.mpr ⟨wrap a, (hHolds _ _).mpr (.inl ⟨a, ⟨k, ?_⟩, rfl⟩), hCreated⟩)
      exact insertIfNew_eq_some.mpr (.inr ⟨hOld, rfl, rfl⟩)

end Insert

theorem entered_proposal {p : CProposal} (h : (DaoObject.proposal p).CreatedBy tx) :
    Entered maps { maps with proposals := maps.proposals.insertIfNew p.hash p } tx := by
  refine entered_insert .proposal (fun m => { maps with proposals := m }) (fun m' o => ?_)
    (fun hKeyed => ⟨?_, ?_⟩) h
  · cases o <;> simp [Holds]
  · intro k p' hp'
    rcases insertIfNew_eq_some.mp hp' with hOld | ⟨-, rfl, rfl⟩
    · exact hKeyed.proposals k p' hOld
    · rfl
  · exact hKeyed.paymentRequests

theorem entered_paymentRequest {r : CPaymentRequest}
    (h : (DaoObject.paymentRequest r).CreatedBy tx) :
    Entered maps { maps with paymentRequests := maps.paymentRequests.insertIfNew r.hash r } tx := by
  refine entered_insert .paymentRequest (fun m => { maps with paymentRequests := m })
    (fun m' o => ?_) (fun hKeyed => ⟨?_, ?_⟩) h
  · cases o <;> simp [Holds]
  · exact hKeyed.proposals
  · intro k r' hr'
    rcases insertIfNew_eq_some.mp hr' with hOld | ⟨-, rfl, rfl⟩
    · exact hKeyed.paymentRequests k r' hOld
    · rfl

theorem entered_consultation {c : CConsultation} (h : (DaoObject.consultation c).CreatedBy tx) :
    Entered maps { maps with consultations := maps.consultations.insertIfNew c.hash c } tx := by
  refine entered_insert .consultation (fun m => { maps with consultations := m }) (fun m' o => ?_)
    (fun hKeyed => ⟨hKeyed.proposals, hKeyed.paymentRequests⟩) h
  cases o <;> simp [Holds]

theorem entered_answer {a : CConsultationAnswer} (h : (DaoObject.answer a).CreatedBy tx) :
    Entered maps { maps with answers := maps.answers.insertIfNew a.hash a } tx := by
  refine entered_insert .answer (fun m => { maps with answers := m }) (fun m' o => ?_)
    (fun hKeyed => ⟨hKeyed.proposals, hKeyed.paymentRequests⟩) h
  cases o <;> simp [Holds]

theorem entered_answers {as : List CConsultationAnswer}
    (h : ∀ a ∈ as, (DaoObject.answer a).CreatedBy tx) :
    Entered maps { maps with
      answers := as.foldl (fun answers a => answers.insertIfNew a.hash a) maps.answers } tx := by
  induction as generalizing maps with
  | nil => exact .refl maps tx
  | cons a as ih =>
    exact (entered_answer (h a mem_cons_self)).trans
      (ih fun b hb => h b (mem_cons_of_mem a hb))

end DaoMaps

/-! ## What an acceptance enters -/

namespace AcceptEnv

variable {env : AcceptEnv} {pool pool' : CTxMemPool} {tx : CTransaction}

/-- **Only the objects change**, and what is new was created by the transaction. -/
structure EntersObjects (pool pool' : CTxMemPool) (tx : CTransaction) : Prop where
  entries : pool'.mapTx = pool.mapTx
  links : pool'.mapLinks = pool.mapLinks
  nextTx : pool'.mapNextTx = pool.mapNextTx
  deltas : pool'.mapDeltas = pool.mapDeltas
  entered : DaoMaps.Entered pool.objects pool'.objects tx

theorem EntersObjects.refl (pool : CTxMemPool) (tx : CTransaction) : EntersObjects pool pool tx :=
  ⟨rfl, rfl, rfl, rfl, .refl _ tx⟩

theorem version_of_gate {fActive : Bool} {nVersion version : Int}
    (h : (fActive && nVersion == version) = true) : nVersion = version :=
  beq_iff_eq.mp (Bool.and_eq_true_iff.mp h).2

/-- The objects that one acceptance enters, for all versions. -/
theorem enterObjects_entered (h : env.enterObjects pool tx = .ok pool') :
    EntersObjects pool pool' tx := by
  unfold enterObjects at h
  dsimp only at h
  -- version by version; what is not valid is not entered
  split at h
  case isTrue hVersion =>
    have hVersion := version_of_gate hVersion
    obtain ⟨fValid, -, h⟩ := bind_eq_ok.mp h
    split at h
    case isFalse => cases h; exact .refl pool tx
    case isTrue =>
      split at h
      case h_2 => cases h
      case h_1 p hp =>
        cases h
        refine ⟨rfl, rfl, rfl, rfl, DaoMaps.entered_proposal ⟨hVersion, ?_⟩⟩
        exact (txToProposal_new hp).1
  case isFalse =>
  split at h
  case isTrue hVersion =>
    have hVersion := version_of_gate hVersion
    obtain ⟨fValid, -, h⟩ := bind_eq_ok.mp h
    split at h
    case isFalse => cases h; exact .refl pool tx
    case isTrue =>
      split at h
      case h_2 => cases h
      case h_1 r hr =>
        split at h
        case isFalse => cases h
        case isTrue =>
          cases h
          refine ⟨rfl, rfl, rfl, rfl, DaoMaps.entered_paymentRequest ⟨hVersion, ?_⟩⟩
          exact (txToPaymentRequest_new hr).1
  case isFalse =>
  split at h
  case isTrue hVersion =>
    have hVersion := version_of_gate hVersion
    split at h
    case isFalse => cases h; exact .refl pool tx
    case isTrue =>
      split at h
      case h_2 => cases h
      case h_1 c vAnswers hc =>
        cases h
        obtain ⟨⟨hHash, -⟩, hAnswers⟩ := txToConsultation_new hc
        have hFirst := @DaoMaps.entered_consultation pool.objects tx c ⟨hVersion, hHash⟩
        refine ⟨rfl, rfl, rfl, rfl, hFirst.trans ?_⟩
        unfold enterConsultation objects
        split
        · exact .refl _ tx
        · exact DaoMaps.entered_answers fun a ha =>
            .inr ⟨hVersion, (hAnswers a ha).1, txToConsultation_txhash hc a ha⟩
  case isFalse =>
  split at h
  case isTrue hVersion =>
    have hVersion := version_of_gate hVersion
    split at h
    case isFalse => cases h; exact .refl pool tx
    case isTrue =>
      split at h
      case h_2 => cases h
      case h_1 a ha =>
        split at h
        case isFalse => cases h; exact .refl pool tx
        case isTrue =>
          cases h
          exact ⟨rfl, rfl, rfl, rfl, DaoMaps.entered_answer
            (.inl ⟨hVersion, txToConsultationAnswer_txhash ha⟩)⟩
  case isFalse => cases h; exact .refl pool tx

theorem passes_eq_ok {check : Bool} {text : String} : passes check text = .ok () ↔ check = true := by
  unfold passes
  cases check <;> simp

/-- A transaction that gets as far as its objects is not in the pool. -/
theorem checkEntry_fresh {setConflicts : Finset UInt256}
    (h : env.checkEntry pool tx = .ok setConflicts) : tx.hash ∉ pool.hashes := by
  obtain ⟨-, -, h⟩ := bind_eq_ok.mp h
  obtain ⟨_, hPasses, -⟩ := bind_eq_ok.mp h
  have hFresh := passes_eq_ok.mp hPasses
  rw [← has_iff]
  simpa using hFresh

end AcceptEnv

/-! ## The calls -/

/-- A call on the pool. -/
inductive PoolCall where
  | accept (env : AcceptEnv) (tx : CTransaction) (fLimitFree fOverrideMempoolLimit : Bool)
      (nAbsurdFee : Int)
  | removeRecursive (tx : CTransaction)
  | removeStaged (stage : Finset UInt256) (updateDescendants : Bool)
  | removeForBlock (vtx : List CTransaction)
  | expire (time : Int)
  | trimToSize (eviction : Eviction) (sizelimit : Nat)

/-- The pool afterwards, and what the call returns. -/
def PoolCall.apply (pool : CTxMemPool) : PoolCall → CTxMemPool × Bool
  | .accept env tx fLimitFree fOverrideMempoolLimit nAbsurdFee =>
    let result := env.acceptToMemoryPool pool tx fLimitFree fOverrideMempoolLimit nAbsurdFee
    (result.1, result.2.isNone)
  | .removeRecursive tx => (pool.removeRecursive tx, true)
  | .removeStaged stage updateDescendants => (pool.removeStaged stage updateDescendants, true)
  | .removeForBlock vtx => (pool.removeForBlock vtx, true)
  | .expire time => (pool.expire time, true)
  | .trimToSize eviction sizelimit => (pool.trimToSize eviction sizelimit, true)

namespace CTxMemPool

variable {pool pool' : CTxMemPool}

/-- **The maps mirror the pool**: what they hold was created by a transaction of the pool. -/
def MapsMirror (pool : CTxMemPool) : Prop :=
  ∀ o, pool.objects.Holds o → ∃ h t, pool.txAt h = some t ∧ o.CreatedBy t

/-- None of these transactions created an object that is held. -/
def Spares (pool : CTxMemPool) (gone : Finset UInt256) : Prop :=
  ∀ h ∈ gone, (pool.txAt h).all (fun t => !pool.objects.holdsFrom t) = true

/-- What `Expire` starts from. -/
def expired (pool : CTxMemPool) (time : Int) : Finset UInt256 :=
  (pool.mapTx.toList.filterMap fun it => if it.2.nTime < time then some it.1 else none).toFinset

/-- What `TrimToSize` takes out. -/
def trimmed (pool : CTxMemPool) (eviction : Eviction) (sizelimit : Nat) : Finset UInt256 :=
  pool.hashes \ (pool.trimToSize eviction sizelimit).hashes

/-- Where the removal of a block's conflicts starts: at a transaction that spends an output which
the block spends otherwise, or at one that spends an output of it. -/
def ConflictRoot (pool : CTxMemPool) (vtx : List CTransaction) (h : UInt256) : Prop :=
  ∃ tx ∈ vtx, ∃ o ∈ spentBy tx, ∃ t : CTransaction, pool.mapNextTx[o]? = some t ∧
    t.hash ≠ tx.hash ∧ (h = t.hash ∨
      ∃ (n : Nat) (t' : CTransaction), pool.mapNextTx[(t.hash, n)]? = some t' ∧ h = t'.hash)

/-- A transaction that goes when the block's conflicts go. -/
def Conflicted (pool : CTxMemPool) (vtx : List CTransaction) (h : UInt256) : Prop :=
  ∃ r, pool.ConflictRoot vtx r ∧ Reaches pool.getMemPoolChildren r h

/-- **A block that keeps the mirror**: it confirms no creator of a held consultation or answer, and
no creator of a held object conflicts with it or depends on one that does. -/
structure KeptByBlock (pool : CTxMemPool) (vtx : List CTransaction) : Prop where
  confirmed : ∀ tx ∈ vtx, ∀ t, pool.txAt tx.hash = some t →
    ∀ o ∈ pool.objects.consultationObjects, ¬ o.CreatedBy t
  conflicted : ∀ h, pool.Conflicted vtx h → ∀ t, pool.txAt h = some t →
    pool.objects.holdsFrom t = false

end CTxMemPool

/-- What `LimitMempoolSize` takes out spares the creators of held objects. -/
def AcceptEnv.LimitSpares (env : AcceptEnv) (pool : CTxMemPool) : Prop :=
  let time := env.time - env.mempoolExpiry
  pool.Spares (pool.calculateAllDescendants (pool.expired time)) ∧
    (pool.expire time).Spares ((pool.expire time).trimmed env.eviction env.maxMempool)

/-- **A call that keeps the mirror.**  An acceptance that enters an object must pass the checks that
are left, and no call may take out the creator of a held object, a block's own proposals and payment
requests apart. -/
def PoolCall.Keeps (pool : CTxMemPool) : PoolCall → Prop
  | .accept env tx fLimitFree fOverrideMempoolLimit nAbsurdFee =>
    ∀ setConflicts entered, env.checkEntry pool tx = .ok setConflicts →
      env.enterObjects pool tx = .ok entered →
      match env.checkPolicy entered tx fLimitFree nAbsurdFee setConflicts with
      | .error _ => entered.objects.holdsFrom tx = false
      | .ok (setAncestors, allConflicting) => entered.Spares allConflicting ∧
        (fOverrideMempoolLimit = true ∨
          env.LimitSpares (env.replaceAndAdd entered tx setAncestors allConflicting))
  | .removeRecursive tx => pool.Spares (pool.calculateAllDescendants (pool.removalRoots tx))
  | .removeStaged stage _ => pool.Spares stage
  | .removeForBlock vtx => pool.KeptByBlock vtx
  | .expire time => pool.Spares (pool.calculateAllDescendants (pool.expired time))
  | .trimToSize eviction sizelimit => pool.Spares (pool.trimmed eviction sizelimit)

namespace CTxMemPool

variable {pool pool' pool'' : CTxMemPool} {gone : Finset UInt256}

/-! ## Removals -/

/-- The mirror, with every entry and every fund object under its hash. -/
structure Mirrored (pool : CTxMemPool) : Prop where
  created : pool.MapsMirror
  keyed : pool.Keyed
  maps : pool.objects.Keyed

variable {k : UInt256} {t : CTransaction} {vtx : List CTransaction} {o : DaoObject}
  {vtx' : List CTransaction} {tx : CTransaction}

theorem Spares.creator_stays (h : pool.Spares gone)
    (ht : pool.txAt k = some t) (ho : pool.objects.Holds o) (hCreated : o.CreatedBy t) :
    k ∉ gone := by
  intro hGone
  have hSpared := h k hGone
  rw [ht, Option.all_some, DaoMaps.holdsFrom_iff.mpr ⟨o, ho, hCreated⟩] at hSpared
  cases hSpared

/-- **A removal that spares the creators** keeps the mirror. -/
theorem Mirrored.shrunk (h : pool.Mirrored) (hShrunk : Shrunk pool pool' gone)
    (hSpares : pool.Spares gone) : pool'.Mirrored := by
  refine ⟨fun o ho => ?_, hShrunk.keyed h.keyed, by rw [hShrunk.objects]; exact h.maps⟩
  rw [hShrunk.objects] at ho
  obtain ⟨k, t, ht, hCreated⟩ := h.created o ho
  refine ⟨k, t, ?_, hCreated⟩
  rw [hShrunk.txs, if_neg (hSpares.creator_stays ht ho hCreated)]
  exact ht

theorem expire_shrunk (pool : CTxMemPool) (time : Int) :
    Shrunk pool (pool.expire time) (pool.calculateAllDescendants (pool.expired time)) :=
  removeStaged_shrunk pool _ false

theorem trimLoop_shrunk (eviction : Eviction) (sizelimit fuel : Nat) (pool : CTxMemPool) :
    ∃ gone, Shrunk pool (pool.trimLoop eviction sizelimit fuel) gone := by
  induction fuel generalizing pool with
  | zero => exact ⟨∅, .refl pool⟩
  | succ fuel ih =>
    rw [trimLoop]
    split
    · obtain ⟨gone, hRest⟩ := ih (pool.removeStaged
        (pool.calculateDescendants (eviction.lowestDescendantScore pool) ∅) false)
      exact ⟨_, (removeStaged_shrunk pool _ false).trans hRest⟩
    · exact ⟨∅, .refl pool⟩

/-- Trimming takes out what is trimmed, and nothing else. -/
theorem trimToSize_shrunk (pool : CTxMemPool) (eviction : Eviction) (sizelimit : Nat)
    (hSpares : pool.Spares (pool.trimmed eviction sizelimit)) :
    ∃ gone, Shrunk pool (pool.trimToSize eviction sizelimit) gone ∧ pool.Spares gone := by
  obtain ⟨gone, hShrunk⟩ := trimLoop_shrunk eviction sizelimit pool.mapTx.size pool
  refine ⟨gone, hShrunk, fun k hk => ?_⟩
  cases ht : pool.txAt k with
  | none => rfl
  | some t =>
    -- the loop took it out of the pool, so it is among the trimmed
    have hTrimmed : k ∈ pool.trimmed eviction sizelimit := by
      refine Finset.mem_sdiff.mpr ⟨mem_hashes_iff_txAt.mpr ⟨t, ht⟩, fun hStays => ?_⟩
      obtain ⟨t', ht'⟩ := mem_hashes_iff_txAt.mp hStays
      exact (hShrunk.tx_old ht').2 hk
    rw [← ht]
    exact hSpares k hTrimmed

/-! ## Blocks -/

/-- **A smaller pool**: nothing is in it that is not in the other. -/
structure Below (pool' pool : CTxMemPool) : Prop where
  txs : ∀ h t, pool'.txAt h = some t → pool.txAt h = some t
  nextTx : ∀ (o : UInt256 × Nat) (t : CTransaction),
    pool'.mapNextTx[o]? = some t → pool.mapNextTx[o]? = some t
  children : ∀ h, pool'.getMemPoolChildren h ⊆ pool.getMemPoolChildren h
  objects : ∀ o, pool'.objects.Holds o → pool.objects.Holds o

theorem Shrunk.below (h : Shrunk pool pool' gone) : Below pool' pool where
  txs := fun _ _ ht => (h.tx_old ht).1
  nextTx := fun o t ht => ((h.nextTx o t).mp ht).1
  children := h.children
  objects := fun o ho => by rwa [h.objects] at ho

theorem Below.reaches (h : Below pool' pool) {a b : UInt256}
    (hPath : Reaches pool'.getMemPoolChildren a b) : Reaches pool.getMemPoolChildren a b :=
  hPath.lift id (fun x _ hxy => h.children x hxy)

theorem Below.conflicted (h : Below pool' pool) (hVtx : vtx' ⊆ vtx)
    (hk : pool'.Conflicted vtx' k) : pool.Conflicted vtx k := by
  obtain ⟨r, ⟨tx, hTx, o, ho, t, hSpender, hOther, hRoot⟩, hPath⟩ := hk
  refine ⟨r, ⟨tx, hVtx hTx, o, ho, t, h.nextTx o t hSpender, hOther, ?_⟩, h.reaches hPath⟩
  rcases hRoot with hSelf | ⟨n, t', hNext, hEq⟩
  · exact .inl hSelf
  · exact .inr ⟨n, t', h.nextTx _ t' hNext, hEq⟩

theorem Below.holdsFrom (h : Below pool' pool)
    (hNone : pool.objects.holdsFrom t = false) : pool'.objects.holdsFrom t = false := by
  rw [← Bool.not_eq_true, DaoMaps.holdsFrom_iff] at hNone ⊢
  rintro ⟨o, ho, hCreated⟩
  exact hNone ⟨o, h.objects o ho, hCreated⟩

theorem mem_consultationObjects {maps : DaoMaps} : o ∈ maps.consultationObjects ↔ maps.Holds o ∧
      ((∃ c, o = .consultation c) ∨ ∃ a, o = .answer a) := by
  simp only [DaoMaps.consultationObjects, mem_append, DaoMaps.mem_objectsOf]
  cases o <;> simp [DaoMaps.Holds]

theorem KeptByBlock.below (hBlock : pool.KeptByBlock vtx) (h : Below pool' pool)
    (hVtx : vtx' ⊆ vtx) : pool'.KeptByBlock vtx' := by
  refine ⟨fun tx hTx t ht o ho => ?_, fun k hk t ht => ?_⟩
  · refine hBlock.confirmed tx (hVtx hTx) t (h.txs _ t ht) o ?_
    rw [mem_consultationObjects] at ho ⊢
    exact ⟨h.objects o ho.1, ho.2⟩
  · exact h.holdsFrom (hBlock.conflicted k (h.conflicted hVtx hk) t (h.txs k t ht))

/-- The removal of one conflict takes out only what is conflicted. -/
theorem removeRecursive_conflict {o : UInt256 × Nat} (ho : o ∈ spentBy tx)
    (hSpender : pool.mapNextTx[o]? = some t) (hOther : t.hash ≠ tx.hash) {h : UInt256}
    (hGone : h ∈ pool.calculateAllDescendants (pool.removalRoots t)) : pool.Conflicted [tx] h := by
  obtain ⟨r, hRoot, hPath⟩ := reaches_of_mem_calculateAllDescendants hGone
  refine ⟨r, ⟨tx, mem_singleton_self tx, o, ho, t, hSpender, hOther, ?_⟩, hPath⟩
  unfold removalRoots at hRoot
  split at hRoot
  · exact .inl (Finset.mem_singleton.mp hRoot)
  · obtain ⟨n, -, hn⟩ := mem_filterMap.mp (mem_toFinset.mp hRoot)
    obtain ⟨t', hNext, hEq⟩ := Option.map_eq_some_iff.mp hn
    exact .inr ⟨n, t', hNext, hEq.symm⟩

/-- Only conflicts and their descendants are taken out. -/
theorem removeConflicts_shrunk (pool : CTxMemPool) (tx : CTransaction) :
    ∃ gone, Shrunk pool (pool.removeConflicts tx) gone ∧ ∀ h ∈ gone, pool.Conflicted [tx] h := by
  refine foldl_invariant (fun _ pool' => ∃ gone, Shrunk pool pool' gone ∧
    ∀ h ∈ gone, pool.Conflicted [tx] h) tx.vin ⟨∅, .refl pool, by simp⟩ ?_
  rintro done txin rest pool' hVin ⟨gone, hShrunk, hGone⟩
  have hInput : txin.prevout.key ∈ spentBy tx := by
    refine mem_map.mpr ⟨txin, ?_, rfl⟩
    rw [hVin]
    simp
  split
  · exact ⟨gone, hShrunk, hGone⟩
  · rename_i t hSpender
    split
    · rename_i hOther
      have hStep := removeStaged_shrunk pool' (pool'.calculateAllDescendants (pool'.removalRoots t)) false
      have hCleared : Shrunk pool'
          ((pool'.removeRecursive t).clearPrioritisation t.hash)
          (pool'.calculateAllDescendants (pool'.removalRoots t)) :=
        ⟨hStep.txs, hStep.nextTx, hStep.children, hStep.objects⟩
      refine ⟨_, hShrunk.trans hCleared, fun h hh => ?_⟩
      rcases Finset.mem_union.mp hh with hOld | hNew
      · exact hGone h hOld
      · exact hShrunk.below.conflicted (List.Subset.refl _)
          (removeRecursive_conflict hInput hSpender hOther hNew)
    · exact ⟨gone, hShrunk, hGone⟩

/-- One transaction of a block: it goes, and with it what conflicts with it. -/
theorem removeForBlockTx_shrunk (pool : CTxMemPool) (tx : CTransaction) :
    ∃ mid gone, Shrunk pool mid gone ∧ (∀ h ∈ gone, h = tx.hash ∨ pool.Conflicted [tx] h) ∧
      pool.removeForBlockTx tx = { mid with
        mapDeltas := mid.mapDeltas.erase tx.hash
        mapProposal := mid.mapProposal.erase tx.hash
        mapPaymentRequest := mid.mapPaymentRequest.erase tx.hash } := by
  have hFirst : ∃ gone, Shrunk pool
      (if pool.has tx.hash then pool.removeStaged {tx.hash} true else pool) gone ∧
      ∀ h ∈ gone, h = tx.hash := by
    split
    · exact ⟨_, removeStaged_shrunk pool _ true, fun h hh => Finset.mem_singleton.mp hh⟩
    · exact ⟨∅, .refl pool, by simp⟩
  obtain ⟨own, hOwn, hSelf⟩ := hFirst
  obtain ⟨gone, hConflicts, hGone⟩ := removeConflicts_shrunk
    (if pool.has tx.hash then pool.removeStaged {tx.hash} true else pool) tx
  refine ⟨_, _, hOwn.trans hConflicts, fun h hh => ?_, rfl⟩
  rcases Finset.mem_union.mp hh with hh | hh
  · exact .inl (hSelf h hh)
  · exact .inr (hOwn.below.conflicted (List.Subset.refl _) (hGone h hh))

theorem getElem?_erase_eq_some {α : Type} {m : Map UInt256 α} {j : UInt256} {a : α} :
    (m.erase j)[k]? = some a ↔ k ≠ j ∧ m[k]? = some a := by
  rw [getElem?_erase]
  by_cases hEq : j = k
  · simp [hEq]
  · simp [hEq, Ne.symm hEq]

theorem removeForBlockTx_below (pool : CTxMemPool) (tx : CTransaction) :
    Below (pool.removeForBlockTx tx) pool := by
  obtain ⟨mid, gone, hShrunk, -, hEq⟩ := removeForBlockTx_shrunk pool tx
  have hBelow := hShrunk.below
  rw [hEq]
  refine ⟨hBelow.txs, hBelow.nextTx, hBelow.children, fun o ho => hBelow.objects o ?_⟩
  cases o with
  | proposal p =>
    obtain ⟨k, hk⟩ := ho
    exact ⟨k, (getElem?_erase_eq_some.mp hk).2⟩
  | paymentRequest r =>
    obtain ⟨k, hk⟩ := ho
    exact ⟨k, (getElem?_erase_eq_some.mp hk).2⟩
  | consultation c => exact ho
  | answer a => exact ho

/-- One transaction of a block: its fund objects leave with it. -/
theorem Mirrored.removeForBlockTx (h : pool.Mirrored)
    (hBlock : pool.KeptByBlock [tx]) : (pool.removeForBlockTx tx).Mirrored := by
  have hBelow := removeForBlockTx_below pool tx
  obtain ⟨mid, gone, hShrunk, hGone, hEq⟩ := removeForBlockTx_shrunk pool tx
  have hMaps : mid.objects.Keyed := by
    rw [hShrunk.objects]
    exact h.maps
  refine ⟨fun o ho => ?_, fun k t ht => h.keyed k t (hBelow.txs k t ht), ?_⟩
  · have hOld := hBelow.objects o ho
    obtain ⟨k, t, ht, hCreated⟩ := h.created o hOld
    refine ⟨k, t, ?_, hCreated⟩
    have hStays : k ∉ gone := by
      intro hk
      rcases hGone k hk with rfl | hConflict
      · -- the block's own transaction: its fund objects are erased, and it has no others
        have hHash : t.hash = tx.hash := h.keyed _ t ht
        rw [hEq] at ho
        cases o with
        | proposal p =>
          obtain ⟨k, hk⟩ := ho
          obtain ⟨hNe, hHeld⟩ := getElem?_erase_eq_some.mp hk
          exact hNe ((hMaps.proposals k p hHeld).symm.trans (hCreated.2.trans hHash))
        | paymentRequest r =>
          obtain ⟨k, hk⟩ := ho
          obtain ⟨hNe, hHeld⟩ := getElem?_erase_eq_some.mp hk
          exact hNe ((hMaps.paymentRequests k r hHeld).symm.trans (hCreated.2.trans hHash))
        | consultation c =>
          refine hBlock.confirmed tx (mem_singleton_self tx) t ht _ ?_ hCreated
          exact mem_consultationObjects.mpr ⟨hOld, .inl ⟨c, rfl⟩⟩
        | answer a =>
          refine hBlock.confirmed tx (mem_singleton_self tx) t ht _ ?_ hCreated
          exact mem_consultationObjects.mpr ⟨hOld, .inr ⟨a, rfl⟩⟩
      · have hNone := hBlock.conflicted k hConflict t ht
        rw [DaoMaps.holdsFrom_iff.mpr ⟨o, hOld, hCreated⟩] at hNone
        cases hNone
    have hMid : mid.txAt k = some t := by
      rw [hShrunk.txs, if_neg hStays]
      exact ht
    rw [hEq]
    exact hMid
  · rw [hEq]
    refine ⟨fun k p hk => ?_, fun k r hk => ?_⟩
    · exact hMaps.proposals k p (getElem?_erase_eq_some.mp hk).2
    · exact hMaps.paymentRequests k r (getElem?_erase_eq_some.mp hk).2

theorem Mirrored.removeForBlock (h : pool.Mirrored)
    (hBlock : pool.KeptByBlock vtx) : (pool.removeForBlock vtx).Mirrored := by
  induction vtx generalizing pool with
  | nil => exact h
  | cons tx vtx ih =>
    have hFirst : pool.KeptByBlock [tx] :=
      hBlock.below (Shrunk.refl pool).below (cons_subset_cons tx (nil_subset vtx))
    exact ih (h.removeForBlockTx hFirst)
      (hBlock.below (removeForBlockTx_below pool tx) (subset_cons_self tx vtx))

end CTxMemPool

/-! ## Acceptances -/

namespace AcceptEnv

variable {env : AcceptEnv} {pool entered : CTxMemPool} {tx : CTransaction}
  {setAncestors allConflicting : Finset UInt256}

theorem EntersObjects.txAt (h : EntersObjects pool entered tx) (k : UInt256) :
    entered.txAt k = pool.txAt k := by
  unfold CTxMemPool.txAt
  rw [h.entries]

/-- Once the conflicts are gone and the transaction is in, the objects it entered have their
creator. -/
theorem replaceAndAdd_mirrored (h : pool.Mirrored) (hFresh : tx.hash ∉ pool.hashes)
    (hEnters : EntersObjects pool entered tx) (hSpares : entered.Spares allConflicting) :
    (env.replaceAndAdd entered tx setAncestors allConflicting).Mirrored ∧
      (env.replaceAndAdd entered tx setAncestors allConflicting).txAt tx.hash = some tx ∧
      (env.replaceAndAdd entered tx setAncestors allConflicting).objects = entered.objects := by
  have hShrunk := removeStaged_shrunk entered allConflicting false
  have hGrown : CTxMemPool.Grown (entered.removeStaged allConflicting false)
      (env.replaceAndAdd entered tx setAncestors allConflicting) tx :=
    addUnchecked_grown _ (env.newEntry entered tx) setAncestors
  have hKeyed : entered.Keyed := by
    intro k t ht
    rw [hEnters.txAt] at ht
    exact h.keyed k t ht
  -- entries leave before the new one comes
  have hNotThere : tx.hash ∉ (entered.removeStaged allConflicting false).hashes := by
    intro hIn
    obtain ⟨t, ht⟩ := mem_hashes_iff_txAt.mp hIn
    have hOld := (hShrunk.tx_old ht).1
    rw [hEnters.txAt] at hOld
    exact hFresh (mem_hashes_iff_txAt.mpr ⟨t, hOld⟩)
  have hNew := hGrown.tx_new hNotThere
  have hObjects := hGrown.objects.trans hShrunk.objects
  refine ⟨⟨fun o ho => ?_, hGrown.keyed (hShrunk.keyed hKeyed), ?_⟩, hNew, hObjects⟩
  · rw [hObjects] at ho
    rcases hEnters.entered.old o ho with hOld | hCreated
    · obtain ⟨k, t, ht, hCreated⟩ := h.created o hOld
      rw [← hEnters.txAt] at ht
      refine ⟨k, t, hGrown.tx_kept ?_, hCreated⟩
      rw [hShrunk.txs, if_neg (hSpares.creator_stays ht ho hCreated)]
      exact ht
    · exact ⟨tx.hash, tx, hNew, hCreated⟩
  · rw [hObjects]
    exact hEnters.entered.keyed h.maps

/-- The size limit spares the creators. -/
theorem limited_mirrored (h : pool.Mirrored) (hSpares : env.LimitSpares pool) :
    (env.limited pool).Mirrored ∧ (env.limited pool).objects = pool.objects ∧
      ∀ k t, pool.txAt k = some t → pool.objects.holdsFrom t = true →
        (env.limited pool).has k = true := by
  obtain ⟨hExpired, hTrimmed⟩ := hSpares
  have hShrunk := expire_shrunk pool (env.time - env.mempoolExpiry)
  have hMid := h.shrunk hShrunk hExpired
  obtain ⟨gone, hTrim, hSpared⟩ := trimToSize_shrunk _ env.eviction env.maxMempool hTrimmed
  refine ⟨hMid.shrunk hTrim hSpared, hTrim.objects.trans hShrunk.objects, fun k t ht hHolds => ?_⟩
  -- a creator is held on to by both parts
  obtain ⟨o, ho, hCreated⟩ := DaoMaps.holdsFrom_iff.mp hHolds
  have hKept : (pool.expire (env.time - env.mempoolExpiry)).txAt k = some t := by
    rw [hShrunk.txs, if_neg (hExpired.creator_stays ht ho hCreated)]
    exact ht
  rw [← hShrunk.objects] at ho
  rw [has_iff, mem_hashes_iff_txAt]
  refine ⟨t, ?_⟩
  have hStays := hSpared.creator_stays hKept ho hCreated
  exact (hTrim.txs k).trans ((if_neg hStays).trans hKept)

/-- **An acceptance keeps the mirror**, and one that fails leaves the maps as they were. -/
theorem accept_keeps (h : pool.Mirrored) {fLimitFree fOverrideMempoolLimit : Bool}
    {nAbsurdFee : Int}
    (hKeeps : (PoolCall.accept env tx fLimitFree fOverrideMempoolLimit nAbsurdFee).Keeps pool) :
    (env.acceptToMemoryPool pool tx fLimitFree fOverrideMempoolLimit nAbsurdFee).1.Mirrored ∧
      ((env.acceptToMemoryPool pool tx fLimitFree fOverrideMempoolLimit nAbsurdFee).2.isNone =
          false →
        (env.acceptToMemoryPool pool tx fLimitFree fOverrideMempoolLimit nAbsurdFee).1.objects =
          pool.objects) := by
  unfold acceptToMemoryPool
  cases hEntry : env.checkEntry pool tx with
  | error why => exact ⟨h, fun _ => rfl⟩
  | ok setConflicts =>
    cases hEnter : env.enterObjects pool tx with
    | error why => exact ⟨h, fun _ => rfl⟩
    | ok entered =>
      have hEnters := enterObjects_entered hEnter
      have hKept := hKeeps setConflicts entered hEntry hEnter
      dsimp only
      cases hPolicy : env.checkPolicy entered tx fLimitFree nAbsurdFee setConflicts with
      | error why =>
        -- rejected after the objects: none was entered
        rw [hPolicy] at hKept
        have hSame : entered.objects = pool.objects :=
          hEnters.entered.changed.resolve_right (by simp [hKept])
        refine ⟨⟨fun o ho => ?_, fun k t ht => ?_, hEnters.entered.keyed h.maps⟩, fun _ => hSame⟩
        · obtain ⟨k, t, ht, hCreated⟩ := h.created o (hSame ▸ ho)
          exact ⟨k, t, (hEnters.txAt k).trans ht, hCreated⟩
        · exact h.keyed k t ((hEnters.txAt k).symm.trans ht)
      | ok sets =>
        rw [hPolicy] at hKept
        obtain ⟨setAncestors, allConflicting⟩ := sets
        obtain ⟨hSpares, hLimit⟩ := hKept
        obtain ⟨hMirrored, hNew, hObjects⟩ := @replaceAndAdd_mirrored env pool entered tx
          setAncestors allConflicting h (checkEntry_fresh hEntry) hEnters hSpares
        cases fOverrideMempoolLimit with
        | true => exact ⟨hMirrored, fun hFalse => by cases hFalse⟩
        | false =>
          have hLimit := hLimit.resolve_left Bool.false_ne_true
          obtain ⟨hLimited, hSame, hStays⟩ := limited_mirrored hMirrored hLimit
          refine ⟨hLimited, fun hFalse => hSame.trans (hObjects.trans ?_)⟩
          rcases hEnters.entered.changed with hEq | hHolds
          · exact hEq
          · -- its object is held, so the transaction stays and the call succeeds
            rw [← hObjects] at hHolds
            simp [hStays tx.hash tx hNew hHolds] at hFalse

end AcceptEnv

/-! ## Runs -/

/-- One call that keeps the mirror. -/
def KeepingCall (pool pool' : CTxMemPool) : Prop :=
  ∃ call : PoolCall, call.Keeps pool ∧ pool' = (call.apply pool).1

theorem PoolCall.apply_mirrored {pool : CTxMemPool} (h : pool.Mirrored) {call : PoolCall}
    (hKeeps : call.Keeps pool) : (call.apply pool).1.Mirrored ∧
      ((call.apply pool).2 = false → (call.apply pool).1.objects = pool.objects) := by
  cases call with
  | accept env tx fLimitFree fOverrideMempoolLimit nAbsurdFee => exact AcceptEnv.accept_keeps h hKeeps
  | removeRecursive tx =>
    exact ⟨h.shrunk (removeStaged_shrunk pool _ false) hKeeps, fun hFalse => by cases hFalse⟩
  | removeStaged stage updateDescendants =>
    exact ⟨h.shrunk (removeStaged_shrunk pool stage _) hKeeps, fun hFalse => by cases hFalse⟩
  | removeForBlock vtx => exact ⟨h.removeForBlock hKeeps, fun hFalse => by cases hFalse⟩
  | expire time =>
    exact ⟨h.shrunk (expire_shrunk pool time) hKeeps, fun hFalse => by cases hFalse⟩
  | trimToSize eviction sizelimit =>
    obtain ⟨gone, hShrunk, hSpared⟩ := trimToSize_shrunk pool eviction sizelimit hKeeps
    exact ⟨h.shrunk hShrunk hSpared, fun hFalse => by cases hFalse⟩

theorem mirrored_empty : ({} : CTxMemPool).Mirrored := by
  have hNone : ∀ k : UInt256, ({} : CTxMemPool).txAt k = none := fun k => by
    rfl
  refine ⟨fun o ho => ?_, fun k t ht => ?_, fun k p hk => ?_, fun k r hk => ?_⟩
  · rw [← DaoMaps.mem_all] at ho
    cases ho
  · cases ht
  · cases hk
  · cases hk

/-- **The maps mirror the pool** in every run of calls that keep the mirror, and such a call that
returns false leaves the maps as they were. -/
theorem poolRun_mirrors {pool : CTxMemPool} (hRun : ReflTransGen KeepingCall {} pool) :
    pool.MapsMirror ∧ ∀ call : PoolCall, call.Keeps pool → (call.apply pool).2 = false →
      (call.apply pool).1.objects = pool.objects := by
  have hMirrored : pool.Mirrored := by
    refine run_invariant hRun mirrored_empty ?_
    rintro pool pool' h ⟨call, hKeeps, rfl⟩
    exact (PoolCall.apply_mirrored h hKeeps).1
  exact ⟨hMirrored.created, fun call hKeeps => (PoolCall.apply_mirrored hMirrored hKeeps).2⟩

instance (pool : CTxMemPool) (gone : Finset UInt256) : Decidable (pool.Spares gone) :=
  inferInstanceAs (Decidable (∀ h ∈ gone, _ = true))

instance (env : AcceptEnv) (pool : CTxMemPool) : Decidable (env.LimitSpares pool) :=
  inferInstanceAs (Decidable (CTxMemPool.Spares _ _ ∧ CTxMemPool.Spares _ _))

instance (pool : CTxMemPool) (env : AcceptEnv) (tx : CTransaction)
    (fLimitFree fOverrideMempoolLimit : Bool) (nAbsurdFee : Int) :
    Decidable ((PoolCall.accept env tx fLimitFree fOverrideMempoolLimit nAbsurdFee).Keeps pool) :=
  match hEntry : env.checkEntry pool tx, hEnter : env.enterObjects pool tx with
  | .error _, _ => .isTrue fun _ _ hOk => by rw [hEntry] at hOk; cases hOk
  | .ok _, .error _ => .isTrue fun _ _ _ hOk => by rw [hEnter] at hOk; cases hOk
  | .ok setConflicts, .ok entered =>
    match hPolicy : env.checkPolicy entered tx fLimitFree nAbsurdFee setConflicts with
    | .error _ => decidable_of_iff (entered.objects.holdsFrom tx = false) (by
        simp [PoolCall.Keeps, hEntry, hEnter, hPolicy])
    | .ok (setAncestors, allConflicting) => decidable_of_iff
        (entered.Spares allConflicting ∧ (fOverrideMempoolLimit = true ∨
          env.LimitSpares (env.replaceAndAdd entered tx setAncestors allConflicting))) (by
        simp [PoolCall.Keeps, hEntry, hEnter, hPolicy])

/-- A node that reads one proposal. -/
def proposalNode : Node :=
  { Node.trusting (fun _ _ => true) ∅ [] with
    readJSON := fun _ => some (.vobj [("n", .vnum "1000"), ("a", .vstr "owner"),
      ("d", .vnum "86400"), ("s", .vstr "a proposal")]) }

/-- The coin that the transaction below spends. -/
def proposalView : CStateView :=
  CStateView.empty.setCoins 100 ⟨false, false, [some ⟨50001000, [OP_DUP]⟩], 0, 1⟩

/-- A proposal, with the contribution it has to make and a fee of 1000. -/
def proposalTx : CTransaction where
  hash := 1
  nVersion := CTransaction.PROPOSAL_VERSION
  nTime := 0
  vin := [⟨⟨100, 0⟩⟩]
  vout := [⟨50000000, [OP_RETURN, OP_CFUND]⟩]
  strDZeel := "proposal"

/-- The pool after the proposal is offered, when this much is asked for as a fee. -/
def offered (mempoolRejectFee : Int) : CTxMemPool × Bool :=
  (PoolCall.accept { AcceptEnv.lenient proposalNode proposalView with
    mempoolRejectFee := fun _ _ => mempoolRejectFee } proposalTx false false 0).apply {}

/-- The proposal is accepted, and its transaction backs it. -/
theorem poolRun_mirrors_accepted : (offered 1000).2 = true ∧
    (offered 1000).1.mapProposal.size = 1 ∧ (offered 1000).1.MapsMirror := by
  refine ⟨by decide +kernel, by decide +kernel, ?_⟩
  refine (poolRun_mirrors (.single ⟨.accept _ proposalTx false false 0, ?_, rfl⟩)).1
  decide +kernel

/-- **The maps drift.** The fee is too low, the call returns false, and the proposal stays in
`mapProposal` without a transaction in the pool. -/
theorem acceptToMemoryPool_leaves_proposal : (offered 2000).2 = false ∧
    (offered 2000).1.mapTx.size = 0 ∧ ¬ (offered 2000).1.MapsMirror := by
  refine ⟨by decide +kernel, by decide +kernel, fun hMirror => ?_⟩
  have hHeld : ((offered 2000).1.mapProposal[(1 : UInt256)]?).isSome = true := by decide +kernel
  obtain ⟨p, hp⟩ := Option.isSome_iff_exists.mp hHeld
  obtain ⟨h, t, ht, -⟩ := hMirror (.proposal p) ⟨1, hp⟩
  have hIn := mem_hashes_iff_txAt.mpr ⟨t, ht⟩
  exact Finset.notMem_empty h hIn

end Electrum
