import Electrum.Dao.StepFund
import Electrum.Validation.ConnectFrame

/-!
# What a block adds to the view

The transactions of a block create objects and list new answers in their consultations; they
change no object that is there.  `Grows` says so for any number of transactions.  The coinbase
then marks payment requests as paid, which `PaysOut` describes.

Main results:
* `ConnectRun.grows` — the loop over the transactions
* `ConnectRun.paysOut` — the payout loop
-/

namespace Electrum

open Option List

/-! ## New objects -/

structure NewProposal (block hash : UInt256) (p : CProposal) : Prop where
  keyed : p.hash = hash
  block : p.txblockhash = block
  stateless : p.mapState = ∅
  amount : 0 ≤ p.nAmount
  solid : p.core.isNull = false

structure NewRequest (block hash : UInt256) (r : CPaymentRequest) : Prop where
  keyed : r.hash = hash
  block : r.txblockhash = block
  stateless : r.mapState = ∅
  amount : 0 ≤ r.nAmount
  solid : r.core.isNull = false

structure NewConsultation (block hash : UInt256) (c : CConsultation) : Prop where
  keyed : c.hash = hash
  block : c.txblockhash = block
  stateless : c.mapState = ∅
  solid : hash ≠ 0

structure NewAnswer (block hash : UInt256) (a : CConsultationAnswer) : Prop where
  keyed : a.hash = hash
  block : a.txblockhash = block
  stateless : a.mapState = ∅
  votes : a.nVotes = 0
  solid : a.core.isNull = false

/-- The second view holds the objects of the first, and new ones of the block. -/
structure Grows (block : UInt256) (view view' : CStateView) : Prop where
  consensus : view'.consensus = view.consensus
  proposals : ∀ hash p, view.getProposal hash = some p → view'.getProposal hash = some p
  newProposals : ∀ hash p, view'.getProposal hash = some p →
    view.getProposal hash = some p ∨ NewProposal block hash p
  requests : ∀ hash r, view.getPaymentRequest hash = some r → view'.getPaymentRequest hash = some r
  newRequests : ∀ hash r, view'.getPaymentRequest hash = some r →
    view.getPaymentRequest hash = some r ∨
      (NewRequest block hash r ∧ (view'.getProposal r.proposalhash).isSome = true)
  consultations : ∀ hash c, view.getConsultation hash = some c →
    ∃ vAnswers, view'.getConsultation hash = some { c with vAnswers := vAnswers }
  newConsultations : ∀ hash c, view'.getConsultation hash = some c →
    (∃ d, view.getConsultation hash = some d ∧ c = { d with vAnswers := c.vAnswers }) ∨
      NewConsultation block hash c
  answers : ∀ hash a, view.getConsultationAnswer hash = some a →
    view'.getConsultationAnswer hash = some a
  newAnswers : ∀ hash a, view'.getConsultationAnswer hash = some a →
    view.getConsultationAnswer hash = some a ∨
      (NewAnswer block hash a ∧ (view'.getConsultation a.parent).isSome = true)

namespace Grows

variable {block : UInt256}

/-- Coins and voters' lists do not count. -/
theorem of_coins_votes (view : CStateView) (coins : Map UInt256 CCoins)
    (votes : Map (List UInt8) CVoteList) :
    Grows block view { view with coins := coins, votes := votes } where
  consensus := rfl
  proposals _ _ h := h
  newProposals _ _ h := .inl h
  requests _ _ h := h
  newRequests _ _ h := .inl h
  consultations _ c h := ⟨c.vAnswers, h⟩
  newConsultations _ c h := .inl ⟨c, h, rfl⟩
  answers _ _ h := h
  newAnswers _ _ h := .inl h

theorem refl (view : CStateView) : Grows block view view :=
  of_coins_votes view view.coins view.votes

variable {view view' : CStateView} {hash : UInt256}

theorem consultation_isSome (h : Grows block view view')
    (hSome : (view.getConsultation hash).isSome = true) :
    (view'.getConsultation hash).isSome = true := by
  obtain ⟨c, hc⟩ := isSome_iff_exists.mp hSome
  obtain ⟨vAnswers, hc'⟩ := h.consultations hash c hc
  rw [hc']
  rfl

theorem proposal_isSome (h : Grows block view view')
    (hSome : (view.getProposal hash).isSome = true) :
    (view'.getProposal hash).isSome = true := by
  obtain ⟨p, hp⟩ := isSome_iff_exists.mp hSome
  rw [h.proposals hash p hp]
  rfl

theorem trans {u v w : CStateView} (h : Grows block u v) (h' : Grows block v w) :
    Grows block u w where
  consensus := h'.consensus.trans h.consensus
  proposals hash p hp := h'.proposals hash p (h.proposals hash p hp)
  newProposals hash p hp := by
    rcases h'.newProposals hash p hp with hOld | hNew
    · exact h.newProposals hash p hOld
    · exact .inr hNew
  requests hash r hr := h'.requests hash r (h.requests hash r hr)
  newRequests hash r hr := by
    rcases h'.newRequests hash r hr with hOld | hNew
    · rcases h.newRequests hash r hOld with hOlder | ⟨hNew, hProposal⟩
      · exact .inl hOlder
      · exact .inr ⟨hNew, h'.proposal_isSome hProposal⟩
    · exact .inr hNew
  consultations hash c hc := by
    obtain ⟨vAnswers, hc'⟩ := h.consultations hash c hc
    obtain ⟨vAnswers', hc''⟩ := h'.consultations hash _ hc'
    exact ⟨vAnswers', hc''⟩
  newConsultations hash c hc := by
    rcases h'.newConsultations hash c hc with ⟨d, hd, hcd⟩ | hNew
    · rcases h.newConsultations hash d hd with ⟨e, he, hde⟩ | hNew
      · refine .inl ⟨e, he, ?_⟩
        rw [hcd, hde]
      · refine .inr ?_
        rw [hcd]
        exact ⟨hNew.keyed, hNew.block, hNew.stateless, hNew.solid⟩
    · exact .inr hNew
  answers hash a ha := h'.answers hash a (h.answers hash a ha)
  newAnswers hash a ha := by
    rcases h'.newAnswers hash a ha with hOld | hNew
    · rcases h.newAnswers hash a hOld with hOlder | ⟨hNew, hParent⟩
      · exact .inl hOlder
      · exact .inr ⟨hNew, h'.consultation_isSome hParent⟩
    · exact .inr hNew

/-- New objects are not null. -/
theorem solid (h : Grows block view view') (hSolid : Solid view) : Solid view' := by
  refine ⟨?_, ?_, ?_, ?_⟩
  · intro hash p hp
    rcases h.newProposals hash p hp with hOld | hNew
    · exact hSolid.proposals hash p hOld
    · exact hNew.solid
  · intro hash r hr
    rcases h.newRequests hash r hr with hOld | ⟨hNew, -⟩
    · exact hSolid.paymentRequests hash r hOld
    · exact hNew.solid
  · intro hash c hc
    rcases h.newConsultations hash c hc with ⟨d, hd, hcd⟩ | hNew
    · rw [hcd]
      exact hSolid.consultations hash d hd
    · rw [hNew.keyed]
      exact hNew.solid
  · intro hash a ha
    rcases h.newAnswers hash a ha with hOld | ⟨hNew, -⟩
    · exact hSolid.answers hash a hOld
    · exact hNew.solid

/-- New objects have no state. -/
theorem statesBelow {env : Env} {n : Nat} (h : Grows block view view')
    (hBelow : StatesBelow env n view) : StatesBelow env n view' := by
  have hEmpty : ∀ m : StateMap, m = ∅ → m.Below env.mapBlockIndex n := by
    rintro m rfl k st pi hk
    simp at hk
  refine ⟨?_, ?_, ?_, ?_⟩
  · intro hash p hp
    rcases h.newProposals hash p hp with hOld | hNew
    · exact hBelow.proposals hash p hOld
    · exact hEmpty _ hNew.stateless
  · intro hash r hr
    rcases h.newRequests hash r hr with hOld | ⟨hNew, -⟩
    · exact hBelow.paymentRequests hash r hOld
    · exact hEmpty _ hNew.stateless
  · intro hash c hc
    rcases h.newConsultations hash c hc with ⟨d, hd, hcd⟩ | hNew
    · rw [hcd]
      exact hBelow.consultations hash d hd
    · exact hEmpty _ hNew.stateless
  · intro hash a ha
    rcases h.newAnswers hash a ha with hOld | ⟨hNew, -⟩
    · exact hBelow.answers hash a hOld
    · exact hEmpty _ hNew.stateless

end Grows

/-! ## One transaction -/

variable {node : Node} {tx : CTransaction} {block : UInt256} {pprev : Chain} {view : CStateView}

theorem txToProposal_new {fee : Int} {p : CProposal} (h : txToProposal node tx block fee = some p) :
    p.hash = tx.hash ∧ p.txblockhash = block ∧ p.mapState = ∅ ∧ 0 ≤ p.nAmount ∧ p.core = p := by
  simp only [txToProposal, bind_eq_bind, bind_eq_some_iff] at h
  obtain ⟨metadata, -, h⟩ := h
  split at h
  all_goals
    simp only [bind_eq_some_iff] at h
    obtain ⟨nVersion, -, nAmount, -, owner, -, nDeadline, -, text, -, h⟩ := h
    split at h
    case isTrue => cases h
    case isFalse hAmount =>
      obtain rfl := some.inj h
      exact ⟨rfl, rfl, rfl, Int.not_lt.mp hAmount, by rw [CProposal.core]⟩

variable {r : CPaymentRequest} {ctx : ConnectContext} {coinbase : CTransaction} {out : CTxOut}

theorem txToPaymentRequest_new (h : txToPaymentRequest node tx block = some r) :
    r.hash = tx.hash ∧ r.txblockhash = block ∧ r.mapState = ∅ ∧ 0 ≤ r.nAmount ∧ r.core = r := by
  simp only [txToPaymentRequest, bind_eq_bind, bind_eq_some_iff] at h
  obtain ⟨metadata, -, nAmount, -, hash, -, strDZeel, -, h⟩ := h
  -- whichever version is read, the amount is tested next
  split at h
  all_goals
    rw [bind_eq_some_iff] at h
    obtain ⟨nVersion, -, h⟩ := h
    split at h
    case isTrue => cases h
    case isFalse hAmount =>
      obtain rfl := some.inj h
      exact ⟨rfl, rfl, rfl, Int.not_lt.mp hAmount, by rw [CPaymentRequest.core]⟩

theorem txToConsultationAnswer_new
    {a : CConsultationAnswer} (h : txToConsultationAnswer node tx block = some a) :
    a.txblockhash = block ∧ a.mapState = ∅ ∧ a.nVotes = 0 ∧ a.core = a := by
  simp only [txToConsultationAnswer, bind_eq_bind, bind_eq_some_iff] at h
  obtain ⟨metadata, -, text, -, hash, -, nVersion, -, h⟩ := h
  cases h
  exact ⟨rfl, rfl, rfl, rfl⟩

theorem txToConsultationAnswer_txhash {a : CConsultationAnswer}
    (h : txToConsultationAnswer node tx block = some a) : a.txhash = tx.hash := by
  simp only [txToConsultationAnswer, bind_eq_bind, bind_eq_some_iff] at h
  obtain ⟨metadata, -, text, -, hash, -, nVersion, -, h⟩ := h
  cases h
  rfl

theorem txToConsultation_new {c : CConsultation} {as : List CConsultationAnswer}
    (h : txToConsultation node pprev tx block = some (c, as)) :
    (c.hash = tx.hash ∧ c.txblockhash = block ∧ c.mapState = ∅) ∧
    ∀ a ∈ as, a.parent = tx.hash ∧ a.txblockhash = block ∧ a.mapState = ∅ ∧ a.nVotes = 0 ∧
      a.core = a := by
  simp only [txToConsultation, bind_eq_bind, bind_eq_some_iff] at h
  obtain ⟨metadata, -, text, -, nMin, -, nMax, -, nVersion, -, h⟩ := h
  cases h
  refine ⟨⟨rfl, rfl, rfl⟩, ?_⟩
  intro a ha
  split at ha
  · cases ha
  · obtain ⟨s, -, rfl⟩ := mem_map.mp ha
    exact ⟨rfl, rfl, rfl, rfl, rfl⟩

/-- The first answers of a consultation name no transaction of their own. -/
theorem txToConsultation_txhash {c : CConsultation} {as : List CConsultationAnswer}
    (h : txToConsultation node pprev tx block = some (c, as)) : ∀ a ∈ as, a.txhash = 0 := by
  simp only [txToConsultation, bind_eq_bind, bind_eq_some_iff] at h
  obtain ⟨metadata, -, text, -, nMin, -, nMax, -, nVersion, -, h⟩ := h
  cases h
  intro a ha
  split at ha
  · cases ha
  · obtain ⟨s, -, rfl⟩ := mem_map.mp ha
    rfl

section Create

variable {block : UInt256} {view : CStateView}

theorem addProposal_grows {p : CProposal} (hBlock : p.txblockhash = block)
    (hState : p.mapState = ∅) (hAmount : 0 ≤ p.nAmount) (hCore : p.core = p) :
    Grows block view (view.addProposal p) := by
  unfold CStateView.addProposal
  split
  case isTrue => exact .refl view
  case isFalse hFresh =>
    have hNone : view.proposals[p.hash]? = none := by simpa using hFresh
    refine { Grows.refl view with proposals := ?_, newProposals := ?_, newRequests := ?_ }
    · intro hash q hq
      exact (Map.getElem?_setUnless_new hNone hash q).mpr (.inl hq)
    · intro hash q hq
      rcases (Map.getElem?_setUnless_new hNone hash q).mp hq with hOld | ⟨rfl, rfl, hNull⟩
      · exact .inl hOld
      · exact .inr ⟨rfl, hBlock, hState, hAmount, by rw [hCore]; exact hNull⟩
    · exact fun _ _ h => .inl h

theorem addPaymentRequest_grows {r : CPaymentRequest} (hBlock : r.txblockhash = block)
    (hState : r.mapState = ∅) (hAmount : 0 ≤ r.nAmount) (hCore : r.core = r)
    (hProposal : (view.getProposal r.proposalhash).isSome = true) :
    Grows block view (view.addPaymentRequest r) := by
  unfold CStateView.addPaymentRequest
  split
  case isTrue => exact .refl view
  case isFalse hFresh =>
    have hNone : view.paymentRequests[r.hash]? = none := by simpa using hFresh
    refine { Grows.refl view with requests := ?_, newRequests := ?_ }
    · intro hash q hq
      exact (Map.getElem?_setUnless_new hNone hash q).mpr (.inl hq)
    · intro hash q hq
      rcases (Map.getElem?_setUnless_new hNone hash q).mp hq with hOld | ⟨rfl, rfl, hNull⟩
      · exact .inl hOld
      · exact .inr ⟨⟨rfl, hBlock, hState, hAmount, by rw [hCore]; exact hNull⟩, hProposal⟩

variable {c : CConsultation}

theorem addConsultation_grows (hBlock : c.txblockhash = block)
    (hState : c.mapState = ∅) (hHash : c.hash ≠ 0) :
    Grows block view (view.addConsultation c) ∧
      ((view.addConsultation c).getConsultation c.hash).isSome = true := by
  unfold CStateView.addConsultation
  split
  case isTrue hMem =>
    refine ⟨.refl view, ?_⟩
    rw [CStateView.getConsultation, ← Std.ExtTreeMap.contains_eq_isSome_getElem?]
    exact hMem
  case isFalse hFresh =>
    have hNone : view.consultations[c.hash]? = none := by simpa using hFresh
    refine ⟨{ Grows.refl view with
      consultations := ?_, newConsultations := ?_, newAnswers := ?_ }, ?_⟩
    · intro hash d hd
      exact ⟨d.vAnswers, (Map.getElem?_setUnless_new hNone hash d).mpr (.inl hd)⟩
    · intro hash d hd
      rcases (Map.getElem?_setUnless_new hNone hash d).mp hd with hOld | ⟨rfl, rfl, -⟩
      · exact .inl ⟨d, hOld, rfl⟩
      · exact .inr ⟨rfl, hBlock, hState, hHash⟩
    · exact fun _ _ h => .inl h
    · rw [CStateView.getConsultation_set (CConsultation.notNull_of_hash hHash), if_pos rfl]
      rfl

/-- A new answer is listed by its consultation, which is there. -/
theorem addConsultationAnswer_grows {a : CConsultationAnswer}
    (hBlock : a.txblockhash = block) (hState : a.mapState = ∅) (hVotes : a.nVotes = 0)
    (hCore : a.core = a) (hParent : (view.getConsultation a.parent).isSome = true) :
    Grows block view (view.addConsultationAnswer a) := by
  unfold CStateView.addConsultationAnswer
  split
  case isTrue => exact .refl view
  case isFalse hFresh =>
    have hNone : view.answers[a.hash]? = none := by simpa using hFresh
    obtain ⟨parent, hGet⟩ := isSome_iff_exists.mp hParent
    rw [hGet, getD_some]
    have hNull : ({ parent with vAnswers := parent.vAnswers ++ [a.hash] } : CConsultation).isNull =
        false := by simp [CConsultation.isNull]
    -- the parent lists one more answer, and the other consultations stay
    have hSet : ∀ k, ((view.setConsultation a.parent { parent with
        vAnswers := parent.vAnswers ++ [a.hash] }).setConsultationAnswer a.hash a).getConsultation
          k = if a.parent = k then some { parent with vAnswers := parent.vAnswers ++ [a.hash] }
            else view.getConsultation k :=
      fun k => CStateView.getConsultation_set hNull k
    refine { Grows.refl view with
      consultations := ?_, newConsultations := ?_, answers := ?_, newAnswers := ?_ }
    · intro hash c hc
      rw [hSet]
      split
      case isTrue hEq =>
        rw [← hEq, hGet] at hc
        cases hc
        exact ⟨_, rfl⟩
      case isFalse => exact ⟨c.vAnswers, hc⟩
    · intro hash c hc
      rw [hSet] at hc
      split at hc
      case isTrue hEq =>
        cases hc
        exact .inl ⟨parent, hEq ▸ hGet, rfl⟩
      case isFalse => exact .inl ⟨c, hc, rfl⟩
    · intro hash b hb
      exact (Map.getElem?_setUnless_new hNone hash b).mpr (.inl hb)
    · intro hash b hb
      rcases (Map.getElem?_setUnless_new hNone hash b).mp hb with hOld | ⟨rfl, rfl, hNull'⟩
      · exact .inl hOld
      · refine .inr ⟨⟨rfl, hBlock, hState, hVotes, by rw [hCore]; exact hNull'⟩, ?_⟩
        rw [hSet, if_pos rfl]
        rfl

/-- The answers come after the consultation, and each of them finds it. -/
theorem addConsultationWithAnswers_grows {as : List CConsultationAnswer}
    (hBlock : c.txblockhash = block) (hState : c.mapState = ∅) (hHash : c.hash ≠ 0)
    (hAnswers : ∀ a ∈ as, a.parent = c.hash ∧ a.txblockhash = block ∧ a.mapState = ∅ ∧
      a.nVotes = 0 ∧ a.core = a) :
    Grows block (view.addConsultation c) (view.addConsultationWithAnswers c as) := by
  have hSome : ((view.addConsultation c).getConsultation c.hash).isSome = true :=
    (addConsultation_grows hBlock hState hHash).2
  unfold CStateView.addConsultationWithAnswers
  split
  case isTrue hMem =>
    rw [CStateView.addConsultation, if_pos hMem]
    exact .refl view
  case isFalse =>
    split
    · exact .refl _
    · refine (foldl_invariant (fun _ v => Grows block (view.addConsultation c) v ∧
        (v.getConsultation c.hash).isSome = true) as ⟨.refl _, hSome⟩ ?_).1
      intro done a rest v hl hP
      obtain ⟨hParent, hTx, hMap, hVotes, hCore⟩ := hAnswers a (by rw [hl]; simp)
      have hStep := addConsultationAnswer_grows hTx hMap hVotes hCore
        (by rw [hParent]; exact hP.2)
      exact ⟨hP.1.trans hStep, hStep.consultation_isSome hP.2⟩

end Create

/-- One transaction creates objects of its own block only. -/
theorem Created.grows {nProposalFee : Int}
    {view' : CStateView} (h : Created ctx tx nProposalFee view view')
    (hTx : tx.hash ≠ 0) : Grows ctx.block.hash view view' := by
  cases h with
  | nothing => exact .refl view
  | proposal _ hTo =>
    obtain ⟨-, hBlock, hState, hAmount, hCore⟩ := txToProposal_new hTo
    exact addProposal_grows hBlock hState hAmount hCore
  | paymentRequest _ _ hTo hProposal =>
    obtain ⟨-, hBlock, hState, hAmount, hCore⟩ := txToPaymentRequest_new hTo
    obtain ⟨p, hp, -⟩ := (any_eq_true _ _).mp hProposal
    exact addPaymentRequest_grows hBlock hState hAmount hCore (by rw [hp]; rfl)
  | consultation _ _ hTo =>
    obtain ⟨⟨hHash, hBlock, hState⟩, hAnswers⟩ := txToConsultation_new hTo
    rw [← hHash] at hTx hAnswers
    exact (addConsultation_grows hBlock hState hTx).1.trans
      (addConsultationWithAnswers_grows hBlock hState hTx hAnswers)
  | answer _ _ hTo hParent =>
    obtain ⟨hBlock, hState, hVotes, hCore⟩ := txToConsultationAnswer_new hTo
    obtain ⟨c, hc, -⟩ := (any_eq_true _ _).mp hParent
    exact addConsultationAnswer_grows hBlock hState hVotes hCore (by rw [hc]; rfl)

/-! ## The block -/

theorem connectTx_grows {st st' : ConnectState} {i : Nat} (hTx : tx.hash ≠ 0)
    (h : connectTx ctx st (tx, i) = .ok st') : Grows ctx.block.hash st.view st'.view := by
  obtain ⟨st1, st2, view1, view2, undo, hVotes, -, hValues, hCreate, hCoins, rfl⟩ :=
    connectTx_ok h
  obtain ⟨lists, recorded, votes, rfl⟩ := takeVotes_ok hVotes
  have hTaken : Grows ctx.block.hash st.view (st.withVotes lists recorded votes).view :=
    Grows.of_coins_votes st.view st.view.coins lists
  rw [(checkValues_kept hValues).1] at hCreate
  have hCreated := (createObject_created hCreate).grows hTx
  refine (hTaken.trans hCreated).trans ?_
  have hFrame : view2 = { view1 with coins := view2.coins } := updateCoins_frame hCoins
  rw [hFrame]
  exact Grows.of_coins_votes view1 view2.coins view1.votes

/-- The request hashes that a coinbase lists. -/
def listedRequests (node : Node) (coinbase : CTransaction) : List UInt256 :=
  (((coinbaseMetadata node coinbase.strDZeel).getD []).map UniValue.getStr).reduceOption.map
    uint256S

/-- The second view has some listed requests marked as paid, after the fork only ACCEPTED
ones. -/
structure PaysOut (node : Node) (pindex : CBlockIndex) (pprev : Chain) (listed : List UInt256)
    (view view' : CStateView) : Prop where
  frame : view' = { view with paymentRequests := view'.paymentRequests }
  none : ∀ hash, view.getPaymentRequest hash = none → view'.getPaymentRequest hash = none
  requests : ∀ hash r, view.getPaymentRequest hash = some r →
    view'.getPaymentRequest hash = some r ∨
    (view'.getPaymentRequest hash = some (r.setState pindex .paid) ∧ hash ∈ listed ∧
      ∃ tip, pprev.head? = some tip ∧ (node.params.nHeightv452Fork ≤ tip.nHeight →
        r.getLastState node.mapBlockIndex = .accepted))

theorem CPaymentRequest.setState_notNull (r : CPaymentRequest) (pindex : CBlockIndex)
    (state : Flags) : (r.setState pindex state).core.isNull = false := by
  simp [CPaymentRequest.isNull, CPaymentRequest.core, CPaymentRequest.setState, StateMap.setState]

namespace PaysOut

variable {node : Node} {pindex : CBlockIndex} {pprev : Chain} {listed : List UInt256}
  {view view' : CStateView} (h : PaysOut node pindex pprev listed view view')
include h

/-- A request after the payouts, traced back. -/
theorem request_back {hash : UInt256} {r' : CPaymentRequest}
    (hr' : view'.getPaymentRequest hash = some r') :
    ∃ r, view.getPaymentRequest hash = some r ∧ (r' = r ∨ r' = r.setState pindex .paid) := by
  refine Map.of_changed (R := fun r r' => r' = r ∨ r' = r.setState pindex .paid) (h.none hash)
    (fun r hr => ?_) hr'
  rcases h.requests hash r hr with hSame | ⟨hPaid, -⟩
  · exact ⟨r, hSame, .inl rfl⟩
  · exact ⟨_, hPaid, .inr rfl⟩

theorem solid (hSolid : Solid view) : Solid view' := by
  refine ⟨?_, ?_, ?_, ?_⟩
  · rw [h.frame]
    exact hSolid.proposals
  · intro hash r' hr'
    obtain ⟨r, hr, rfl | rfl⟩ := h.request_back hr'
    · exact hSolid.paymentRequests hash r' hr
    · exact r.setState_notNull pindex .paid
  · rw [h.frame]
    exact hSolid.consultations
  · rw [h.frame]
    exact hSolid.answers

theorem statesBelow (hKnown : node.mapBlockIndex[pindex.phashBlock]? = some pindex) {n : Nat}
    (hHeight : pindex.nHeight ≤ n) (hBelow : StatesBelow node.toEnv n view) :
    StatesBelow node.toEnv n view' := by
  refine ⟨?_, ?_, ?_, ?_⟩
  · rw [h.frame]
    exact hBelow.proposals
  · intro hash r' hr'
    obtain ⟨r, hr, rfl | rfl⟩ := h.request_back hr'
    · exact hBelow.paymentRequests hash r' hr
    · exact (hBelow.paymentRequests hash r hr).setState hKnown hHeight .paid
  · rw [h.frame]
    exact hBelow.consultations
  · rw [h.frame]
    exact hBelow.answers

end PaysOut

/-- A matched request is listed, and after the fork it is ACCEPTED. -/
theorem matchPayout_some {n : Nat} {prid : UInt256}
    (h : matchPayout node pprev view (coinbaseMetadata node coinbase.strDZeel) n out =
      some (prid, r)) :
    view.getPaymentRequest prid = some r ∧ prid ∈ listedRequests node coinbase ∧
      ∃ tip, pprev.head? = some tip ∧ (node.params.nHeightv452Fork ≤ tip.nHeight →
        r.getLastState node.mapBlockIndex = .accepted) := by
  simp only [matchPayout, bind_eq_bind, bind_eq_some_iff] at h
  obtain ⟨values, hMeta, value, hValue, str, hStr, r', hr', proposal, -, address, -, tip, hTip, h⟩
    := h
  split at h
  case isFalse => cases h
  case isTrue hCond =>
    cases h
    refine ⟨hr', ?_, tip, hTip, fun hFork => ?_⟩
    · refine mem_map.mpr ⟨str, ?_, rfl⟩
      rw [reduceOption_mem_iff, hMeta]
      exact mem_map.mpr ⟨value, mem_of_getElem? hValue, hStr⟩
    · simp only [Bool.and_eq_true] at hCond
      simpa [hFork] using hCond.1.1.2

/-- One output of the coinbase. -/
theorem coinbaseStep_paysOut {pindex : CBlockIndex} {reward : Int} {st st' : CoinbaseState}
    (hPays : PaysOut node pindex pprev (listedRequests node coinbase) view st.view)
    (h : coinbaseStep node pindex pprev reward (coinbaseMetadata node coinbase.strDZeel) st out =
      some st') :
    PaysOut node pindex pprev (listedRequests node coinbase) view st'.view := by
  unfold coinbaseStep at h
  dsimp only at h
  split at h
  case isFalse =>
    cases h
    exact hPays
  case isTrue =>
    simp only [bind_eq_bind, bind_eq_some_iff] at h
    obtain ⟨⟨prid, r⟩, hMatch, h⟩ := h
    cases h
    obtain ⟨hGet, hListed, tip, hTip, hFork⟩ := matchPayout_some hMatch
    have hSet : ∀ k, (st.view.setPaymentRequest prid (r.setState pindex .paid)).getPaymentRequest
        k = if prid = k then some (r.setState pindex .paid) else st.view.getPaymentRequest k :=
      fun k => CStateView.getPaymentRequest_set
        (CPaymentRequest.notNull_of_core (r.setState_notNull pindex .paid)) k
    refine ⟨?_, ?_, ?_⟩
    · rw [hPays.frame]
      rfl
    · intro hash hNone
      rw [hSet]
      split
      case isTrue hEq =>
        rw [← hEq] at hNone
        rw [hPays.none prid hNone] at hGet
        cases hGet
      case isFalse => exact hPays.none hash hNone
    · intro hash q hq
      rw [hSet]
      split
      case isFalse => exact hPays.requests hash q hq
      case isTrue hEq =>
        subst hEq
        rcases hPays.requests prid q hq with hOld | ⟨hPaid, hRest⟩
        · -- paid for the first time
          rw [hOld] at hGet
          cases hGet
          exact .inr ⟨rfl, hListed, tip, hTip, hFork⟩
        · -- matched again, which before the fork can happen
          rw [hPaid] at hGet
          cases hGet
          refine .inr ⟨?_, hRest⟩
          unfold CPaymentRequest.setState
          rw [StateMap.setState_setState]

namespace ConnectRun

variable {node : Node} {block : CBlock} {pindex : CBlockIndex} {pprev : Chain} {fund : Fund}
  {recorded : RecordedVotes} {view : CStateView} {r : Connected}
  (run : ConnectRun node block pindex pprev fund recorded view r)

/-- **The transactions.** They create objects and change none. -/
theorem grows (hHashes : ∀ tx ∈ block.vtx, tx.hash ≠ 0) : Grows block.hash view run.st.view := by
  refine foldlM_except_invariant
    (fun _ (st : ConnectState) => Grows block.hash view st.view) block.vtx.zipIdx
    (Grows.refl view) ?_ run.loop
  intro done it rest st st' hl hP hStep
  exact hP.trans (connectTx_grows (hHashes it.1 (mem_of_zipIdx_split hl)) hStep)

/-- **The contributions.** The transactions add to the fund's supply what they pay it. -/
theorem contributed : run.st.fund =
    ⟨fund.nCFSupply + (block.vtx.map CTransaction.getValueOutCFund).sum, fund.nCFLocked⟩ := by
  have hLoop := foldlM_except_invariant
    (fun done (st : ConnectState) => st.fund =
      ⟨fund.nCFSupply + (done.map fun it => it.1.getValueOutCFund).sum, fund.nCFLocked⟩)
    block.vtx.zipIdx (by simp [ConnectState.initial]) ?_ run.loop
  · rw [hLoop]
    rw [← List.zipIdx_map_fst 0 block.vtx, List.map_map, List.zipIdx_map_fst]
    rfl
  · intro done it rest st st' _ hP hStep
    obtain ⟨st1, st2, view1, view2, undo, hVotes, -, hValues, -, -, rfl⟩ := connectTx_ok hStep
    obtain ⟨lists, recorded, votes, rfl⟩ := takeVotes_ok hVotes
    have hFund : st2.fund = st.fund := (checkValues_kept hValues).2.2.1
    rw [hFund, hP]
    simp [Fund.contribute, Int.add_assoc]

/-- **The payouts.** The coinbase marks listed requests as paid. -/
theorem paysOut :
    PaysOut node pindex pprev (listedRequests node run.coinbase) run.st.view run.cb.view := by
  refine foldlM_option_invariant
    (fun _ (st : CoinbaseState) =>
      PaysOut node pindex pprev (listedRequests node run.coinbase) run.st.view st.view)
    run.coinbase.vout ⟨rfl, fun _ h => h, fun _ _ h => .inl h⟩ ?_ run.payout
  intro done out rest st st' _ hP hStep
  exact coinbaseStep_paysOut hP hStep

end ConnectRun

end Electrum
