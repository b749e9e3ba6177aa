import Electrum.Dao.Outcome
import Electrum.Validation.Chain

/-!
# Decisions are final

A payment request or proposal that was decided should keep its decision.  `VoteStep` tests
expiry and rejection at the end of every cycle again, also for decided objects, with the votes
they had and the parameters of the day; so a decision stands only as long as these tests do
not turn against it.

Main results:
* `TipRun.request_keeps`, `TipRun.proposal_keeps` — what one block keeps
* `decisions_final` — what a run keeps
-/

namespace Electrum

/-! ## What is to be kept -/

/-- The states a payment request may go to. -/
def RequestKeeps : Flags → Flags → Prop
  | .accepted, new => new = .accepted ∨ new = .paid
  | .paid, new => new = .paid
  | .rejected, new => new = .rejected
  | .expired, new => new = .expired
  | _, _ => True

/-- The states a proposal may go to; one that was ACCEPTED never comes to REJECTED. -/
def ProposalKeeps : Flags → Flags → Prop
  | .accepted, new => new = .accepted ∨ new = .pendingVotingPreq ∨ new = .expired
  | .pendingVotingPreq, new => new = .pendingVotingPreq ∨ new = .expired
  | .rejected, new => new = .rejected
  | .expired, new => new = .expired
  | _, _ => True

theorem RequestKeeps.refl (old : Flags) : RequestKeeps old old := by
  cases old <;> simp [RequestKeeps]

variable {old mid new state : Flags} {view : CStateView}

theorem RequestKeeps.trans (h : RequestKeeps old mid)
    (h' : RequestKeeps mid new) : RequestKeeps old new := by
  cases old <;> cases mid <;> simp_all [RequestKeeps]

theorem ProposalKeeps.refl (old : Flags) : ProposalKeeps old old := by
  cases old <;> simp [ProposalKeeps]

theorem ProposalKeeps.trans (h : ProposalKeeps old mid)
    (h' : ProposalKeeps mid new) : ProposalKeeps old new := by
  cases old <;> cases mid <;> simp_all [ProposalKeeps]

/-- The second view keeps the decisions of the first. -/
structure DecisionsKept (env : Env) (view view' : CStateView) : Prop where
  requests : ∀ hash r, view.getPaymentRequest hash = some r →
    ∃ r', view'.getPaymentRequest hash = some r' ∧
      RequestKeeps (r.getLastState env.mapBlockIndex) (r'.getLastState env.mapBlockIndex)
  proposals : ∀ hash p, view.getProposal hash = some p → ∃ p', view'.getProposal hash = some p' ∧
      ProposalKeeps (p.getLastState env.mapBlockIndex) (p'.getLastState env.mapBlockIndex)

theorem DecisionsKept.refl (env : Env) (view : CStateView) : DecisionsKept env view view :=
  ⟨fun _ r hr => ⟨r, hr, .refl _⟩, fun _ p hp => ⟨p, hp, .refl _⟩⟩

variable {env : Env}

theorem DecisionsKept.trans {u v w : CStateView} (h : DecisionsKept env u v)
    (h' : DecisionsKept env v w) : DecisionsKept env u w := by
  refine ⟨fun hash r hr => ?_, fun hash p hp => ?_⟩
  · obtain ⟨r', hr', hKeeps⟩ := h.requests hash r hr
    obtain ⟨r'', hr'', hKeeps'⟩ := h'.requests hash r' hr'
    exact ⟨r'', hr'', hKeeps.trans hKeeps'⟩
  · obtain ⟨p', hp', hKeeps⟩ := h.proposals hash p hp
    obtain ⟨p'', hp'', hKeeps'⟩ := h'.proposals hash p' hp'
    exact ⟨p'', hp'', hKeeps.trans hKeeps'⟩

/-! ## When nothing turns against a decision -/

/-- At the end of a cycle the tests agree with the decisions in the view: no request or proposal
that was accepted, paid or has expired counts as rejected by its old votes and the current
parameters, and no rejected proposal counts as expired. -/
@[mk_iff]
structure TestsAgree (env : Env) (view : CStateView) (currentTime : Nat) : Prop where
  requests : ∀ hash r, view.getPaymentRequest hash = some r →
    r.getLastState env.mapBlockIndex = .accepted ∨ r.getLastState env.mapBlockIndex = .paid ∨
      r.getLastState env.mapBlockIndex = .expired →
    r.isExpired env view = true ∨ r.isRejected env view = false
  proposals : ∀ hash p, view.getProposal hash = some p →
    p.getLastState env.mapBlockIndex = .accepted ∨
      p.getLastState env.mapBlockIndex = .pendingVotingPreq ∨
      p.getLastState env.mapBlockIndex = .expired →
    p.isExpired env view currentTime = true ∨ p.isRejected env view = false
  rejected : ∀ hash p, view.getProposal hash = some p →
    p.getLastState env.mapBlockIndex = .rejected → p.isExpired env view currentTime = false

instance (env : Env) (view : CStateView) (currentTime : Nat) :
    Decidable (TestsAgree env view currentTime) :=
  decidable_of_iff _ (testsAgree_iff env view currentTime).symm

/-- Before the fork, which made the payout loop look at states, the coinbase lists no request
that was rejected or has expired. -/
def ListsNoClosedRequest (node : Node) (st : ChainState) (block : CBlock) : Prop :=
  node.params.nHeightv452Fork ≤ tipHeight st.chain ∨
    ∀ hash ∈ ((block.vtx.head?).map (listedRequests node)).getD [], ∀ r,
      st.view.getPaymentRequest hash = some r →
      r.getLastState node.mapBlockIndex ≠ .rejected ∧ r.getLastState node.mapBlockIndex ≠ .expired

/-- The block turns no decision of the state. -/
structure KeepsDecisions (node : Node) (st : ChainState) (block : CBlock) (pindex : CBlockIndex) :
    Prop where
  payouts : ListsNoClosedRequest node st block
  tests : node.isActive .communityFund st.chain = true →
    endsCycle node.toEnv st.view pindex → TestsAgree node.toEnv st.view pindex.nTime

/-! ## One block -/

/-- A change that the tests do not speak against keeps the decision. -/
theorem RequestMove.keeps {r : CPaymentRequest}
    (h : RequestMove env view r state) (hTest : r.getLastState env.mapBlockIndex = .accepted ∨
        r.getLastState env.mapBlockIndex = .paid ∨ r.getLastState env.mapBlockIndex = .expired →
      r.isExpired env view = true ∨ r.isRejected env view = false) :
    RequestKeeps (r.getLastState env.mapBlockIndex) state := by
  cases h with
  | expire hExpired hOld =>
    -- a request with any other decision does not expire
    have hUndecided : ¬(r.getLastState env.mapBlockIndex = .accepted ∨
        r.getLastState env.mapBlockIndex = .rejected ∨
        r.getLastState env.mapBlockIndex = .paid) := by
      intro hDecided
      rw [CPaymentRequest.isExpired_decided hDecided] at hExpired
      cases hExpired
    revert hOld hUndecided
    cases r.getLastState env.mapBlockIndex <;> simp [RequestKeeps]
  | reject hExpired hRejected hOld =>
    have hOther : ¬(r.getLastState env.mapBlockIndex = .accepted ∨
        r.getLastState env.mapBlockIndex = .paid ∨
        r.getLastState env.mapBlockIndex = .expired) := by
      intro hDecided
      rcases hTest hDecided with hTrue | hFalse
      · rw [hExpired] at hTrue
        cases hTrue
      · rw [hRejected] at hFalse
        cases hFalse
    revert hOld hOther
    cases r.getLastState env.mapBlockIndex <;> simp [RequestKeeps]

/-- The moves that undo no decision. -/
theorem ProposalMove.keeps {currentTime : Nat} {p : CProposal}
    (h : ProposalMove env view currentTime p state)
    (hTest : p.getLastState env.mapBlockIndex = .accepted ∨
        p.getLastState env.mapBlockIndex = .pendingVotingPreq ∨
        p.getLastState env.mapBlockIndex = .expired →
      p.isExpired env view currentTime = true ∨ p.isRejected env view = false)
    (hClosed : p.getLastState env.mapBlockIndex = .rejected →
      p.isExpired env view currentTime = false) :
    ProposalKeeps (p.getLastState env.mapBlockIndex) state := by
  cases h with
  | expire hExpired hOld hState =>
    have hOpen : p.getLastState env.mapBlockIndex ≠ .rejected := by
      intro hRejected
      rw [hClosed hRejected] at hExpired
      cases hExpired
    revert hOld hOpen
    rcases hState with rfl | rfl <;>
      cases p.getLastState env.mapBlockIndex <;> simp [ProposalKeeps]
  | reject hExpired hRejected hOld =>
    have hOther : ¬(p.getLastState env.mapBlockIndex = .accepted ∨
        p.getLastState env.mapBlockIndex = .pendingVotingPreq ∨
        p.getLastState env.mapBlockIndex = .expired) := by
      intro hDecided
      rcases hTest hDecided with hTrue | hFalse
      · rw [hExpired] at hTrue
        cases hTrue
      · rw [hRejected] at hFalse
        cases hFalse
    revert hOld hOther
    cases p.getLastState env.mapBlockIndex <;> simp [ProposalKeeps]
  | accept hOld =>
    rw [hOld]
    trivial

namespace TipRun

variable {node : Node} {block : CBlock} {pindex : CBlockIndex} {st st' : ChainState}
  (run : TipRun node block pindex st st')

theorem paid_consensus : run.paid.consensus = st.view.consensus := by
  rw [run.pays.frame]
  exact run.grows.consensus

/-- `VoteStep` asks for the cycle's end with the parameters of the state. -/
theorem endsCycle_of_isCycleEnd (h : (StepContext.connecting node.toEnv st'.recorded pindex
    st.chain run.paid st.cache).isCycleEnd = true) : endsCycle node.toEnv st.view pindex := by
  have hEnd := beq_iff_eq.mp h
  unfold endsCycle
  rw [← getConsensusParameter_congr run.paid_consensus]
  exact hEnd

variable (hExt : Extends node st.chain block pindex) (hSane : Sane node st)
include hExt hSane

variable {hash : UInt256} {r : CPaymentRequest}

/-- What `VoteStep` makes of a request whose states up to this block are in `base`. -/
theorem request_vote (hr : run.paid.getPaymentRequest hash = some r) {base : StateMap}
    (hBase : base.Below node.mapBlockIndex (tipHeight st.chain))
    (hEntered : base.Entered pindex r.mapState)
    (hTest : node.isActive .communityFund st.chain = true → endsCycle node.toEnv st.view pindex →
      r.getLastState node.mapBlockIndex = .accepted ∨ r.getLastState node.mapBlockIndex = .paid ∨
        r.getLastState node.mapBlockIndex = .expired →
      r.isExpired node.toEnv st.view = true ∨ r.isRejected node.toEnv st.view = false) :
    ∃ r', st'.view.getPaymentRequest hash = some r' ∧
      RequestKeeps (r.getLastState node.mapBlockIndex) (r'.getLastState node.mapBlockIndex) := by
  obtain ⟨r', hr', hMoved, hInactive⟩ := run.run.request rfl (run.paid_solid hSane) hr
  refine ⟨r', hr', ?_⟩
  have hAbove := hExt.above
  have hStay : r'.mapState = r.mapState → RequestKeeps (r.getLastState node.mapBlockIndex)
      (r'.getLastState node.mapBlockIndex) := by
    intro hMap
    rw [CPaymentRequest.getLastState, CPaymentRequest.getLastState, hMap]
    exact .refl _
  cases hActive : node.isActive .communityFund st.chain with
  | false => exact hStay (hInactive hActive)
  | true =>
    rcases hMoved.moved with hMap | ⟨state, hMap, hEnd, hMove⟩
    · exact hStay hMap
    · have hLast : r'.getLastState node.mapBlockIndex = state := by
        show r'.mapState.getLastState node.mapBlockIndex = state
        rw [show r'.mapState = r.mapState.setState pindex state from hMap]
        -- a state that the payout entered for this block is overwritten
        rcases hEntered with hSame | ⟨old, hOld⟩
        · rw [hSame]
          exact hBase.getLastState_setState hExt.known hAbove state
        · rw [hOld, StateMap.setState_setState]
          exact hBase.getLastState_setState hExt.known hAbove state
      rw [hLast]
      by_cases hNil : r.getLastState node.mapBlockIndex = .nil
      · rw [hNil]
        trivial
      · exact ((hMove hNil).congr run.paid_consensus).keeps
          (hTest hActive (run.endsCycle_of_isCycleEnd hEnd))

variable (hKeeps : KeepsDecisions node st block pindex)
include run hKeeps

/-- **Requests.** One block keeps the decision on a request. -/
theorem request_keeps (hr : st.view.getPaymentRequest hash = some r) :
    ∃ r', st'.view.getPaymentRequest hash = some r' ∧
      RequestKeeps (r.getLastState node.mapBlockIndex) (r'.getLastState node.mapBlockIndex) := by
  have hBase := hSane.below.paymentRequests hash r hr
  have hTest :=
    fun hActive hEnd => (hKeeps.tests hActive hEnd).requests hash r hr
  rcases run.pays.requests hash r (run.grows.requests hash r hr) with
    hSame | ⟨hPaid, hListed, tip, hTip, hFork⟩
  · exact run.request_vote hExt hSane hSame hBase (.inl rfl) hTest
  · -- the block pays the request
    have hAbove := hExt.above
    have hLast : (r.setState pindex .paid).getLastState node.mapBlockIndex = .paid :=
      hBase.getLastState_setState hExt.known hAbove .paid
    have hOpen : r.getLastState node.mapBlockIndex ≠ .rejected ∧
        r.getLastState node.mapBlockIndex ≠ .expired := by
      rcases hKeeps.payouts with hHeight | hLists
      · have hAccepted := hFork (by simpa [tipHeight, hTip] using hHeight)
        rw [hAccepted]
        exact ⟨by decide, by decide⟩
      · exact hLists hash (run.lists ▸ hListed) r hr
    by_cases hDecided : r.getLastState node.mapBlockIndex = .accepted ∨
        r.getLastState node.mapBlockIndex = .paid
    · -- marking a request as paid does not change how its votes count
      have hVotes : node.isActive .communityFund st.chain = true →
          endsCycle node.toEnv st.view pindex →
          (r.setState pindex .paid).isRejected node.toEnv st.view = false := by
        intro hActive hEnd
        have hNotExpired : r.isExpired node.toEnv st.view = false :=
          CPaymentRequest.isExpired_decided (hDecided.imp_right .inr)
        rcases hTest hActive hEnd (hDecided.imp_right .inl) with hTrue | hFalse
        · rw [hNotExpired] at hTrue
          cases hTrue
        · exact hFalse
      obtain ⟨r', hr', hPaidKeeps⟩ := run.request_vote hExt hSane hPaid hBase
        (.inr ⟨.paid, rfl⟩) (fun hActive hEnd _ => .inr (hVotes hActive hEnd))
      refine ⟨r', hr', ?_⟩
      rw [hLast] at hPaidKeeps
      rw [show r'.getLastState node.mapBlockIndex = .paid from hPaidKeeps]
      rcases hDecided with h | h <;> simp [h, RequestKeeps]
    · obtain ⟨r', hr', -, -⟩ := run.run.request rfl (run.paid_solid hSane) hPaid
      refine ⟨r', hr', ?_⟩
      obtain ⟨hNotRejected, hNotExpired⟩ := hOpen
      revert hNotRejected hNotExpired hDecided
      cases r.getLastState node.mapBlockIndex <;> simp [RequestKeeps]

/-- **Proposals.** One block keeps the decision on a proposal. -/
theorem proposal_keeps {p : CProposal} (hp : st.view.getProposal hash = some p) :
    ∃ p', st'.view.getProposal hash = some p' ∧
      ProposalKeeps (p.getLastState node.mapBlockIndex) (p'.getLastState node.mapBlockIndex) := by
  have hBase := hSane.below.proposals hash p hp
  have hAbove := hExt.above
  have hPaid : run.paid.getProposal hash = some p := by
    rw [run.pays.frame]
    exact run.grows.proposals hash p hp
  obtain ⟨p', hp', hMoved, hInactive⟩ := run.run.proposal rfl (run.paid_solid hSane) hPaid
  refine ⟨p', hp', ?_⟩
  have hStay : p'.mapState = p.mapState → ProposalKeeps (p.getLastState node.mapBlockIndex)
      (p'.getLastState node.mapBlockIndex) := by
    intro hMap
    rw [CProposal.getLastState, CProposal.getLastState, hMap]
    exact .refl _
  cases hActive : node.isActive .communityFund st.chain with
  | false => exact hStay (hInactive hActive)
  | true =>
    rcases hMoved.moved with hMap | ⟨state, hMap, hEnd, hMove⟩
    · exact hStay hMap
    · have hLast : p'.getLastState node.mapBlockIndex = state := by
        show p'.mapState.getLastState node.mapBlockIndex = state
        rw [hMap]
        exact hBase.getLastState_setState hExt.known hAbove state
      rw [hLast]
      by_cases hNil : p.getLastState node.mapBlockIndex = .nil
      · rw [hNil]
        trivial
      · have hTests := hKeeps.tests hActive (run.endsCycle_of_isCycleEnd hEnd)
        exact ((hMove hNil).congr run.paid_consensus).keeps (hTests.proposals hash p hp)
          (hTests.rejected hash p hp)

end TipRun

/-- **Step.** -/
theorem decisionsKept_step {node : Node} {st st' : ChainState} (hSane : Sane node st)
    (hStep : TipStep node (KeepsDecisions node) st st') :
    DecisionsKept node.toEnv st.view st'.view := by
  obtain ⟨block, pindex, hExt, hKeeps, hConnect⟩ := hStep
  rcases connectTip_run hExt.hashes hConnect with ⟨recorded, rfl⟩ | ⟨⟨run⟩⟩
  · exact .refl _ _
  · exact ⟨fun hash r hr => run.request_keeps hExt hSane hKeeps hr,
      fun hash p hp => run.proposal_keeps hExt hSane hKeeps hp⟩

/-- **Decisions are final** along every run whose blocks turn none. -/
theorem decisions_final {node : Node} {st st' : ChainState} (hSane : Sane node st)
    (hRun : ChainRun node (KeepsDecisions node) st st') :
    DecisionsKept node.toEnv st.view st'.view :=
  (run_induction hRun (R := fun s t => DecisionsKept node.toEnv s.view t.view) hSane
    (fun _ => .refl _ _) (fun _ _ _ => .trans)
    (fun _ _ hs hStep => ⟨sane_step hs hStep, decisionsKept_step hs hStep⟩)).2

/-! ## A vote counted twice -/

/-- Blocks above the fork, of a node on which the fund is active. -/
def fundNode : Node :=
  .trusting (fun pos _ => pos == .communityFund)
    (((List.range 18).map fun i => smallBlock (i + 95)).foldl
      (fun m b => m.insert b.phashBlock b) ∅) []

/-- A proposal of 100 coins, accepted at height 99. -/
def fundProposal : CProposal where
  nAmount := 100
  nFee := 0
  ownerAddress := "owner"
  paymentAddress := "owner"
  nDeadline := 1000
  mapState := (∅ : StateMap).insert 99 .accepted
  nVotesYes := 5
  nVotesNo := 0
  nVotesAbs := 0
  nExclude := 0
  strDZeel := "proposal"
  hash := 40
  txblockhash := 95
  nVersion := 2
  nVotingCycle := 0

/-- A request of 5 coins, accepted at height 104 with four votes against one. -/
def fundRequest : CPaymentRequest where
  nAmount := 5
  mapState := (∅ : StateMap).insert 104 .accepted
  hash := 50
  proposalhash := 40
  txblockhash := 100
  nVotesYes := 4
  nVotesNo := 1
  nVotesAbs := 0
  nExclude := 0
  strDZeel := "request"
  nVersion := 2
  nVotingCycle := 0

/-- Cycles of five blocks; at height 104 the share of votes that rejects a payment request was
set to `minReject`. -/
def fundState (minReject : Nat) : ChainState where
  chain := ((List.range 14).map fun i => smallBlock (i + 95)).reverse
  view := { CStateView.empty with
    consensus := (∅ : Map Nat CConsensusParameter).insert ConsensusParamsPos.votingCycleLength.idx
        ⟨(∅ : Map Nat Nat).insert 1 5⟩
      |>.insert ConsensusParamsPos.paymentRequestMinReject.idx
        ⟨(∅ : Map Nat Nat).insert 104 minReject⟩
    proposals := (∅ : Map UInt256 CProposal).insert 40 fundProposal
    paymentRequests := (∅ : Map UInt256 CPaymentRequest).insert 50 fundRequest }
  fund := ⟨1000, 95⟩
  recorded := .empty
  cache := .init

/-- The block at height 109, which ends a cycle. -/
def fundBlock : CBlock :=
  ⟨109, 109, 0, [⟨1109, 1, 109, [⟨⟨0, 2 ^ 32 - 1⟩⟩], [⟨0, []⟩], ""⟩]⟩

theorem fundBlock_extends (minReject : Nat) :
    Extends fundNode (fundState minReject).chain fundBlock (smallBlock 109) :=
  ⟨rfl, rfl, rfl, by decide +kernel, rfl, by decide⟩

/-- With a share of 75 percent the request stays accepted. -/
theorem decisions_final_fundBlock :
    ∃ st, connectTip fundNode fundBlock (smallBlock 109) (fundState 7500) = some st ∧
      DecisionsKept fundNode.toEnv (fundState 7500).view st.view := by
  obtain ⟨st, hst⟩ := Option.isSome_iff_exists.mp (show (connectTip fundNode fundBlock
    (smallBlock 109) (fundState 7500)).isSome = true by decide +kernel)
  have hSane : Sane fundNode (fundState 7500) := ⟨by decide +kernel, by decide +kernel⟩
  have hKeeps : KeepsDecisions fundNode (fundState 7500) fundBlock (smallBlock 109) :=
    ⟨.inl (by decide +kernel), fun _ _ => by decide +kernel⟩
  exact ⟨st, hst, decisions_final hSane
    (.single ⟨fundBlock, smallBlock 109, fundBlock_extends 7500, hKeeps, hst⟩)⟩

/-- With a share of 10 percent the one vote against the accepted request rejects it. -/
theorem decisions_turned :
    Sane fundNode (fundState 1000) ∧
    (fundRequest.getLastState fundNode.mapBlockIndex = .accepted ∧
      (fundState 1000).view.getPaymentRequest 50 = some fundRequest) ∧
    ∃ st r, connectTip fundNode fundBlock (smallBlock 109) (fundState 1000) = some st ∧
      st.view.getPaymentRequest 50 = some r ∧
      r.getLastState fundNode.mapBlockIndex = .rejected := by
  refine ⟨⟨by decide +kernel, by decide +kernel⟩, by decide +kernel, ?_⟩
  simp only [exists_and_left]
  decide +kernel

end Electrum
