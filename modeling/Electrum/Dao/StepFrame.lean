import Electrum.Dao.Writes

/-!
# What the counting phases of VoteStep leave alone

Storing the counted votes, storing the number of excluded blocks and restarting the counters
change nothing but counters.  `SameCore` relates views whose objects have the same cores.  The
counters of a proposal or payment request change only while it is being voted on, which
`CountsOnly` adds.

Main results:
* `tallyAll_countsOnly`, `excludeAll_countsOnly`, `resetAll_countsOnly` — what the counting
  phases do when a block is connected
-/

namespace Electrum

variable {view : CStateView} {env : Env} {s : StepContext} {mapSeen mapSeenSupport : List UInt256}

/-- The views hold the same objects up to counters, and agree elsewhere. -/
structure SameCore (view view' : CStateView) : Prop where
  coins : view'.coins = view.coins
  votes : view'.votes = view.votes
  consensus : view'.consensus = view.consensus
  proposals : ∀ hash, (view'.getProposal hash).map CProposal.core =
    (view.getProposal hash).map CProposal.core
  paymentRequests : ∀ hash, (view'.getPaymentRequest hash).map CPaymentRequest.core =
    (view.getPaymentRequest hash).map CPaymentRequest.core
  consultations : ∀ hash, (view'.getConsultation hash).map CConsultation.core =
    (view.getConsultation hash).map CConsultation.core
  answers : ∀ hash, (view'.getConsultationAnswer hash).map CConsultationAnswer.core =
    (view.getConsultationAnswer hash).map CConsultationAnswer.core

theorem SameCore.refl (view : CStateView) : SameCore view view :=
  ⟨rfl, rfl, rfl, fun _ => rfl, fun _ => rfl, fun _ => rfl, fun _ => rfl⟩

variable {u v w view' : CStateView} {fCFund fDAOConsultations : Bool}

theorem SameCore.trans (h : SameCore u v) (h' : SameCore v w) : SameCore u w where
  coins := h'.coins.trans h.coins
  votes := h'.votes.trans h.votes
  consensus := h'.consensus.trans h.consensus
  proposals hash := (h'.proposals hash).trans (h.proposals hash)
  paymentRequests hash := (h'.paymentRequests hash).trans (h.paymentRequests hash)
  consultations hash := (h'.consultations hash).trans (h.consultations hash)
  answers hash := (h'.answers hash).trans (h.answers hash)

/-- No object counts as null, whatever its counters: writing one back never drops it. -/
@[mk_iff]
structure Solid (view : CStateView) : Prop where
  proposals : ∀ hash p, view.getProposal hash = some p → p.core.isNull = false
  paymentRequests : ∀ hash r, view.getPaymentRequest hash = some r → r.core.isNull = false
  consultations : ∀ hash c, view.getConsultation hash = some c → c.hash ≠ 0
  answers : ∀ hash a, view.getConsultationAnswer hash = some a → a.core.isNull = false

instance (view : CStateView) : Decidable (Solid view) :=
  decidable_of_iff _ (solid_iff view).symm

/-- Every state in the view was entered at height `n` or below. -/
@[mk_iff]
structure StatesBelow (env : Env) (n : Nat) (view : CStateView) : Prop where
  proposals : ∀ hash p, view.getProposal hash = some p → p.mapState.Below env.mapBlockIndex n
  paymentRequests : ∀ hash r, view.getPaymentRequest hash = some r →
    r.mapState.Below env.mapBlockIndex n
  consultations : ∀ hash c, view.getConsultation hash = some c →
    c.mapState.Below env.mapBlockIndex n
  answers : ∀ hash a, view.getConsultationAnswer hash = some a →
    a.mapState.Below env.mapBlockIndex n

instance (env : Env) (n : Nat) (view : CStateView) : Decidable (StatesBelow env n view) :=
  decidable_of_iff _ (statesBelow_iff env n view).symm

theorem Map.core_of_some {α : Type} {core : α → α} {o o' : Option α} {a : α}
    (h : o'.map core = o.map core) (ha : o' = some a) : ∃ b, o = some b ∧ core a = core b := by
  subst ha
  cases o with
  | none => cases h
  | some b => exact ⟨b, rfl, Option.some.inj h⟩

/-- What is known of the object after a change is known of the one before. -/
theorem Map.of_changed {α : Type} {R : α → α → Prop} {o o' : Option α} (hNone : o = none → o' = none)
    (hSome : ∀ a, o = some a → ∃ a', o' = some a' ∧ R a a') {a' : α} (h : o' = some a') :
    ∃ a, o = some a ∧ R a a' := by
  cases o with
  | none =>
    rw [hNone rfl] at h
    cases h
  | some a =>
    obtain ⟨_, hSame, hR⟩ := hSome a rfl
    cases h.symm.trans hSame
    exact ⟨a, rfl, hR⟩

theorem SameCore.solid (h : SameCore view view') (hs : Solid view) : Solid view' := by
  refine ⟨?_, ?_, ?_, ?_⟩
  · intro hash p hp
    obtain ⟨q, hq, hEq⟩ := Map.core_of_some (h.proposals hash) hp
    rw [hEq]
    exact hs.proposals hash q hq
  · intro hash r hr
    obtain ⟨q, hq, hEq⟩ := Map.core_of_some (h.paymentRequests hash) hr
    rw [hEq]
    exact hs.paymentRequests hash q hq
  · intro hash c hc
    obtain ⟨q, hq, hEq⟩ := Map.core_of_some (h.consultations hash) hc
    have hHash : c.core.hash = q.core.hash := by rw [hEq]
    rw [show c.hash = q.hash from hHash]
    exact hs.consultations hash q hq
  · intro hash a ha
    obtain ⟨q, hq, hEq⟩ := Map.core_of_some (h.answers hash) ha
    rw [hEq]
    exact hs.answers hash q hq

section NotNull

variable {view : CStateView} (hSolid : Solid view) {hash : UInt256}
include hSolid

theorem Solid.proposal_notNull {p : CProposal} (h : view.getProposal hash = some p) :
    p.isNull = false :=
  CProposal.notNull_of_core (hSolid.proposals hash p h)

theorem Solid.request_notNull {r : CPaymentRequest} (h : view.getPaymentRequest hash = some r) :
    r.isNull = false :=
  CPaymentRequest.notNull_of_core (hSolid.paymentRequests hash r h)

theorem Solid.consultation_notNull {c : CConsultation} (h : view.getConsultation hash = some c) :
    c.isNull = false :=
  CConsultation.notNull_of_hash (hSolid.consultations hash c h)

theorem Solid.answer_notNull {a : CConsultationAnswer}
    (h : view.getConsultationAnswer hash = some a) : a.isNull = false :=
  CConsultationAnswer.notNull_of_core (hSolid.answers hash a h)

end NotNull

/-! ## Writing an object back with other counters -/

section Write

variable {view : CStateView} {hash : UInt256} (hSolid : Solid view)
include hSolid

theorem SameCore.setProposal {p p' : CProposal} (h : view.getProposal hash = some p)
    (hCore : p'.core = p.core) : SameCore view (view.setProposal hash p') := by
  have hNull : p'.isNull = false :=
    CProposal.notNull_of_core (by rw [hCore]; exact hSolid.proposals hash p h)
  exact { SameCore.refl view with
    proposals := fun k => Map.map_getElem?_setUnless h hCore hNull k }

theorem SameCore.setPaymentRequest {r r' : CPaymentRequest}
    (h : view.getPaymentRequest hash = some r) (hCore : r'.core = r.core) :
    SameCore view (view.setPaymentRequest hash r') := by
  have hNull : r'.isNull = false :=
    CPaymentRequest.notNull_of_core (by rw [hCore]; exact hSolid.paymentRequests hash r h)
  exact { SameCore.refl view with
    paymentRequests := fun k => Map.map_getElem?_setUnless h hCore hNull k }

theorem SameCore.setConsultation {c c' : CConsultation}
    (h : view.getConsultation hash = some c) (hCore : c'.core = c.core) :
    SameCore view (view.setConsultation hash c') := by
  have hHash : c'.hash = c.hash := by rw [CConsultation.eq_of_core hCore]
  have hNull : c'.isNull = false :=
    CConsultation.notNull_of_hash (by rw [hHash]; exact hSolid.consultations hash c h)
  exact { SameCore.refl view with
    consultations := fun k => Map.map_getElem?_setUnless h hCore hNull k }

theorem SameCore.setConsultationAnswer {a a' : CConsultationAnswer}
    (h : view.getConsultationAnswer hash = some a) (hCore : a'.core = a.core) :
    SameCore view (view.setConsultationAnswer hash a') := by
  have hNull : a'.isNull = false :=
    CConsultationAnswer.notNull_of_core (by rw [hCore]; exact hSolid.answers hash a h)
  exact { SameCore.refl view with
    answers := fun k => Map.map_getElem?_setUnless h hCore hNull k }

end Write

/-! ## Counting phases -/

/-- Only counters change, and those of proposals and payment requests only without a state. -/
structure CountsOnly (env : Env) (view view' : CStateView) : Prop extends SameCore view view' where
  decidedProposals : ∀ hash p, view.getProposal hash = some p →
    p.getLastState env.mapBlockIndex ≠ .nil → view'.getProposal hash = some p
  decidedRequests : ∀ hash r, view.getPaymentRequest hash = some r →
    r.getLastState env.mapBlockIndex ≠ .nil → view'.getPaymentRequest hash = some r

theorem CountsOnly.refl (env : Env) (view : CStateView) : CountsOnly env view view :=
  { SameCore.refl view with
    decidedProposals := fun _ _ h _ => h
    decidedRequests := fun _ _ h _ => h }

theorem CountsOnly.trans (h : CountsOnly env u v) (h' : CountsOnly env v w) : CountsOnly env u w :=
  { h.toSameCore.trans h'.toSameCore with
    decidedProposals := fun hash p hp hne =>
      h'.decidedProposals hash p (h.decidedProposals hash p hp hne) hne
    decidedRequests := fun hash r hr hne =>
      h'.decidedRequests hash r (h.decidedRequests hash r hr hne) hne }

/-- A write of counters leaves everything else. -/
theorem Write.countsOnly (hSolid : Solid view)
    (h : Write (Edit.counts env) view view') : CountsOnly env view view' := by
  cases h with
  | @proposal hash p p' h hEdit =>
    refine { SameCore.setProposal hSolid h hEdit.2 with
      decidedProposals := ?_, decidedRequests := fun _ _ hr _ => hr }
    intro k q hq hne
    have hk : hash ≠ k := by
      rintro rfl
      rw [h] at hq
      cases hq
      exact hne hEdit.1
    show (Map.setUnless _ view.proposals hash p')[k]? = some q
    rw [Map.getElem?_setUnless, if_neg hk]
    exact hq
  | @paymentRequest hash r r' h hEdit =>
    refine { SameCore.setPaymentRequest hSolid h hEdit.2 with
      decidedProposals := fun _ _ hp _ => hp, decidedRequests := ?_ }
    intro k q hq hne
    have hk : hash ≠ k := by
      rintro rfl
      rw [h] at hq
      cases hq
      exact hne hEdit.1
    show (Map.setUnless _ view.paymentRequests hash r')[k]? = some q
    rw [Map.getElem?_setUnless, if_neg hk]
    exact hq
  | consultation h hEdit =>
    exact { SameCore.setConsultation hSolid h hEdit with
      decidedProposals := fun _ _ hp _ => hp
      decidedRequests := fun _ _ hr _ => hr }
  | answer h hEdit =>
    exact { SameCore.setConsultationAnswer hSolid h hEdit with
      decidedProposals := fun _ _ hp _ => hp
      decidedRequests := fun _ _ hr _ => hr }

theorem Write.solid (hSolid : Solid view) (h : Write (Edit.counts env) view view') : Solid view' :=
  (h.countsOnly hSolid).toSameCore.solid hSolid

theorem Writes.countsOnly (h : Writes (Edit.counts env) view view')
    (hSolid : Solid view) : CountsOnly env view view' :=
  h.lift (CountsOnly.refl env) CountsOnly.trans Write.solid Write.countsOnly hSolid

theorem Writes.of_tallies (hs : s.pindexDelete = none)
    (h : Writes (Edit.tallies s) view view') : Writes (Edit.counts s.env) view view' :=
  h.mono fun _ hEdit => hEdit.2 hs

/-- **Counting.** -/
theorem tallyAll_countsOnly {c : VoteCache} (hs : s.pindexDelete = none) (hSolid : Solid view) :
    CountsOnly s.env view (tallyAll s fCFund fDAOConsultations c view).1 :=
  (tallyAll_writes.of_tallies hs).countsOnly hSolid

/-- **Excluded blocks.** -/
theorem excludeAll_countsOnly (hSolid : Solid view) :
    CountsOnly s.env view (excludeAll s fCFund fDAOConsultations view) :=
  (excludeAll_writes.mono fun _ hEdit => hEdit.counts).countsOnly hSolid

/-- **Restarting.** -/
theorem resetAll_countsOnly (hSolid : Solid view) :
    CountsOnly s.env view (resetAll s fCFund fDAOConsultations mapSeen mapSeenSupport view) :=
  resetAll_writes.countsOnly hSolid

end Electrum
