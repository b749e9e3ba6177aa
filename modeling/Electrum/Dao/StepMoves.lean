import Electrum.Dao.StepRun

/-!
# What a call of VoteStep does to each object

A call changes counters, voting cycles and states; a state it sets is entered at its block.
For a proposal or payment request that already has a state the conditions of a change depend
on the parameters and on the object alone.

Main results:
* `StepRun.request`, `StepRun.proposal` — the change of one request, of one proposal
* `StepRun.answer`, `StepRun.consultation` — that of an answer, of a consultation
* `StepRun.statesBelow` — states are entered at the block
-/

namespace Electrum

open Option

/-! ## Changes of a decided object -/

section Congr

variable {env : Env} {view other : CStateView} (h : view.consensus = other.consensus)
include h

theorem CPaymentRequest.isRejected_congr (r : CPaymentRequest) :
    r.isRejected env view = r.isRejected env other := by
  simp only [isRejected, nMinimumQuorum, getConsensusParameter_congr h]

theorem CPaymentRequest.isExpired_congr (r : CPaymentRequest) :
    r.isExpired env view = r.isExpired env other := by
  simp only [isExpired, exceededMaxVotingCycles, getConsensusParameter_congr h]

theorem CProposal.isRejected_congr (p : CProposal) :
    p.isRejected env view = p.isRejected env other := by
  simp only [isRejected, nMinimumQuorum, getConsensusParameter_congr h]

theorem CProposal.isExpired_congr (p : CProposal) (currentTime : Nat) :
    p.isExpired env view currentTime = p.isExpired env other currentTime := by
  simp only [isExpired, exceededMaxVotingCycles, getConsensusParameter_congr h]

end Congr

variable {env : Env} {view : CStateView} {r r' : CPaymentRequest} {state : Flags} {fund : Fund}
  {p p' : CProposal} {s : StepContext}

/-- A request that was accepted, rejected or paid does not expire. -/
theorem CPaymentRequest.isExpired_decided (h : r.getLastState env.mapBlockIndex = .accepted ∨
      r.getLastState env.mapBlockIndex = .rejected ∨
      r.getLastState env.mapBlockIndex = .paid) : r.isExpired env view = false := by
  unfold isExpired
  split
  · rcases h with h | h | h <;> simp [h]
  · rfl

/-- How a request with a state can change it at a cycle end. -/
inductive RequestMove (env : Env) (view : CStateView) (r : CPaymentRequest) : Flags → Prop
  | expire (hExpired : r.isExpired env view = true)
      (hOld : r.getLastState env.mapBlockIndex ≠ .expired) : RequestMove env view r .expired
  | reject (hExpired : r.isExpired env view = false) (hRejected : r.isRejected env view = true)
      (hOld : r.getLastState env.mapBlockIndex ≠ .rejected) : RequestMove env view r .rejected

variable {other mid : CStateView} {currentTime : Nat} {fund' : Fund} {hash : UInt256}
  {c : CPaymentRequest}

theorem RequestMove.congr (hParams : view.consensus = other.consensus)
    (h : RequestMove env view r state) : RequestMove env other r state := by
  cases h with
  | expire hExpired hOld =>
    rw [CPaymentRequest.isExpired_congr hParams] at hExpired
    exact .expire hExpired hOld
  | reject hExpired hRejected hOld =>
    rw [CPaymentRequest.isExpired_congr hParams] at hExpired
    rw [CPaymentRequest.isRejected_congr hParams] at hRejected
    exact .reject hExpired hRejected hOld

theorem CPaymentRequest.nextState_decided {proposal : CProposal}
    (hOld : r.getLastState env.mapBlockIndex ≠ .nil)
    (h : r.nextState env view fund proposal (r.getLastState env.mapBlockIndex) = some state) :
    RequestMove env view r state := by
  cases CPaymentRequest.nextState_next h with
  | expire hExpired hNe => exact .expire hExpired hNe
  | reject hExpired hRejected hNe => exact .reject hExpired hRejected hNe
  | accept _ hNil => exact absurd hNil hOld

/-- How a proposal with a state can change it at a cycle end. -/
inductive ProposalMove (env : Env) (view : CStateView) (currentTime : Nat) (p : CProposal) :
    Flags → Prop
  | expire (hExpired : p.isExpired env view currentTime = true)
      (hOld : p.getLastState env.mapBlockIndex ≠ .expired) {state : Flags}
      (hState : state = .pendingVotingPreq ∨ state = .expired) :
      ProposalMove env view currentTime p state
  | reject (hExpired : p.isExpired env view currentTime = false)
      (hRejected : p.isRejected env view = true)
      (hOld : p.getLastState env.mapBlockIndex ≠ .rejected) :
      ProposalMove env view currentTime p .rejected
  | accept (hOld : p.getLastState env.mapBlockIndex = .pendingFunds) :
      ProposalMove env view currentTime p .accepted

theorem ProposalMove.congr (hParams : view.consensus = other.consensus)
    (h : ProposalMove env view currentTime p state) :
    ProposalMove env other currentTime p state := by
  cases h with
  | expire hExpired hOld hState =>
    rw [CProposal.isExpired_congr hParams] at hExpired
    exact .expire hExpired hOld hState
  | reject hExpired hRejected hOld =>
    rw [CProposal.isExpired_congr hParams] at hExpired
    rw [CProposal.isRejected_congr hParams] at hRejected
    exact .reject hExpired hRejected hOld
  | accept hOld => exact .accept hOld

theorem CProposal.nextState_decided (hOld : p.getLastState env.mapBlockIndex ≠ .nil)
    (h : p.nextState env view fund currentTime (p.getLastState env.mapBlockIndex) = some state) :
    ProposalMove env view currentTime p state := by
  cases CProposal.nextState_next h with
  | wait hExpired hNe => exact .expire hExpired hNe (.inl rfl)
  | expire hExpired hNe => exact .expire hExpired hNe (.inr rfl)
  | reject hExpired hRejected hNe => exact .reject hExpired hRejected hNe
  | accept hNil => exact .accept (hNil.resolve_left hOld)
  | lackFunds hNil => exact absurd hNil hOld

/-! ## One call -/

/-- The request after a call: the same up to counters, voting cycle and a new state. -/
structure RequestMoved (s : StepContext) (view : CStateView) (r r' : CPaymentRequest) :
    Prop where
  kept : r'.core = { r with mapState := r'.mapState, nVotingCycle := r'.nVotingCycle }.core
  moved : r'.mapState = r.mapState ∨ ∃ state, r'.mapState = r.mapState.setState s.pindexNew state ∧
    s.isCycleEnd = true ∧
    (r.getLastState s.env.mapBlockIndex ≠ .nil → RequestMove s.env view r state)

structure ProposalMoved (s : StepContext) (view : CStateView) (p p' : CProposal) : Prop where
  kept : p'.core = { p with mapState := p'.mapState, nVotingCycle := p'.nVotingCycle }.core
  moved : p'.mapState = p.mapState ∨ ∃ state, p'.mapState = p.mapState.setState s.pindexNew state ∧
    s.isCycleEnd = true ∧
    (p.getLastState s.env.mapBlockIndex ≠ .nil → ProposalMove s.env view s.pindexNew.nTime p state)

/-- One turn of the loop over the requests, on a view with the same parameters. -/
theorem RequestTurn.moved (hParams : mid.consensus = view.consensus)
    (h : RequestTurn s mid fund hash r r' fund') : RequestMoved s view r r' := by
  have hKept := h.kept
  refine ⟨by rw [← hKept], ?_⟩
  cases h with
  | skip => exact .inl rfl
  | stay pblockindex => exact .inl (by rw [CPaymentRequest.recount_eq])
  | @move pblockindex proposal state hProposal hEnd hNext =>
    refine .inr ⟨state, ?_, hEnd, fun hOld => ?_⟩
    · show (r.recount s pblockindex).mapState.setState _ _ = _
      rw [CPaymentRequest.recount_eq]
    · -- a request with a state keeps its voting cycle
      rw [CPaymentRequest.recount_decided hOld] at hNext
      have hMove := CPaymentRequest.nextState_decided hOld hNext
      exact hMove.congr (show (mid.setPaymentRequest hash r).consensus = _ from hParams)

theorem ProposalTurn.moved (hParams : mid.consensus = view.consensus)
    (h : ProposalTurn s mid fund hash p p' fund') : ProposalMoved s view p p' := by
  have hKept := h.kept
  refine ⟨by rw [← hKept], ?_⟩
  cases h with
  | skip => exact .inl rfl
  | stay pblockindex => exact .inl (by rw [CProposal.recount_eq])
  | @move pblockindex state hEnd hNext =>
    refine .inr ⟨state, ?_, hEnd, fun hOld => ?_⟩
    · show (p.recount s mid pblockindex).mapState.setState _ _ = _
      rw [CProposal.recount_eq]
    · rw [CProposal.recount_decided hOld] at hNext
      have hMove := CProposal.nextState_decided hOld hNext
      exact hMove.congr (show (mid.setProposal hash p).consensus = _ from hParams)

/-- A change of a request counted for the block is a change of the request before. -/
theorem RequestMoved.of_counted
    (hCore : c.core = r.core) (hDecided : r.getLastState s.env.mapBlockIndex ≠ .nil → c = r)
    (h : RequestMoved s view c r') : RequestMoved s view r r' := by
  have hMap : c.mapState = r.mapState := by rw [CPaymentRequest.eq_of_core hCore]
  refine ⟨?_, ?_⟩
  · rw [h.kept, CPaymentRequest.eq_of_core hCore]
    rfl
  · rcases h.moved with hSame | ⟨state, hState, hEnd, hMove⟩
    · exact .inl (hSame.trans hMap)
    · refine .inr ⟨state, by rw [hState, hMap], hEnd, fun hOld => ?_⟩
      rw [hDecided hOld] at hMove
      exact hMove hOld

theorem ProposalMoved.of_counted {c : CProposal}
    (hCore : c.core = p.core) (hDecided : p.getLastState s.env.mapBlockIndex ≠ .nil → c = p)
    (h : ProposalMoved s view c p') : ProposalMoved s view p p' := by
  have hMap : c.mapState = p.mapState := by rw [CProposal.eq_of_core hCore]
  refine ⟨?_, ?_⟩
  · rw [h.kept, CProposal.eq_of_core hCore]
    rfl
  · rcases h.moved with hSame | ⟨state, hState, hEnd, hMove⟩
    · exact .inl (hSame.trans hMap)
    · refine .inr ⟨state, by rw [hState, hMap], hEnd, fun hOld => ?_⟩
      rw [hDecided hOld] at hMove
      exact hMove hOld

theorem RequestMoved.of_core
    (hCore : r'.core = c.core) (h : RequestMoved s view r c) : RequestMoved s view r r' := by
  have hMap : r'.mapState = c.mapState := by rw [CPaymentRequest.eq_of_core hCore]
  have hCycle : r'.nVotingCycle = c.nVotingCycle := by rw [CPaymentRequest.eq_of_core hCore]
  exact ⟨by rw [hMap, hCycle, hCore]; exact h.kept, by rw [hMap]; exact h.moved⟩

theorem ProposalMoved.of_core {c : CProposal}
    (hCore : p'.core = c.core) (h : ProposalMoved s view p c) : ProposalMoved s view p p' := by
  have hMap : p'.mapState = c.mapState := by rw [CProposal.eq_of_core hCore]
  have hCycle : p'.nVotingCycle = c.nVotingCycle := by rw [CProposal.eq_of_core hCore]
  exact ⟨by rw [hMap, hCycle, hCore]; exact h.kept, by rw [hMap]; exact h.moved⟩

theorem RequestMoved.same (hCore : r'.core = r.core) : RequestMoved s view r r' :=
  ⟨by rw [CPaymentRequest.eq_of_core hCore]; rfl, .inl (by rw [CPaymentRequest.eq_of_core hCore])⟩

theorem ProposalMoved.same (hCore : p'.core = p.core) : ProposalMoved s view p p' :=
  ⟨by rw [CProposal.eq_of_core hCore]; rfl, .inl (by rw [CProposal.eq_of_core hCore])⟩

section Fund

variable {s : StepContext} (hs : s.pindexDelete = none) {view : CStateView} (hSolid : Solid view)
include hs hSolid

variable {other : CStateView} {hash : UInt256}

/-- The two loops over the fund's objects, for one request. -/
theorem stepFund_request (hParams : view.consensus = other.consensus)
    {fund : Fund} {r : CPaymentRequest} (hr : view.getPaymentRequest hash = some r) :
    ∃ r', (stepFund s view fund).1.getPaymentRequest hash = some r' ∧
      RequestMoved s other r r' := by
  obtain ⟨hLoop, hTurns⟩ := stepRequests_spec hs hSolid fund
  obtain ⟨mid, r', fund', hMid, -, hTurn, hEnd⟩ := (hTurns hash).2 r hr
  refine ⟨r', ?_, hTurn.moved (by rw [hMid.frame]; exact hParams)⟩
  rw [stepFund_eq hs hSolid, (stepProposals_spec hs hLoop.solid _).1.frame]
  exact hEnd

/-- The two loops over the fund's objects, for one proposal. -/
theorem stepFund_proposal (hParams : view.consensus = other.consensus)
    {fund : Fund} {p : CProposal} (hp : view.getProposal hash = some p) :
    ∃ p', (stepFund s view fund).1.getProposal hash = some p' ∧ ProposalMoved s other p p' := by
  obtain ⟨hLoop, -⟩ := stepRequests_spec hs hSolid fund
  have hp' : (stepRequests s view fund).1.getProposal hash = some p := by
    rw [hLoop.frame]
    exact hp
  obtain ⟨-, hTurns⟩ := stepProposals_spec hs hLoop.solid (stepRequests s view fund).2
  obtain ⟨mid, p', fund', hMid, -, hTurn, hEnd⟩ := (hTurns hash).2 p hp'
  have hParams' : mid.1.consensus = other.consensus := by
    rw [hMid.frame]
    rw [hLoop.frame]
    exact hParams
  rw [stepFund_eq hs hSolid]
  exact ⟨p', hEnd, hTurn.moved hParams'⟩

/-- The loops add no object. -/
theorem stepFund_none (fund : Fund) (hash : UInt256) : (view.getPaymentRequest hash = none →
      (stepFund s view fund).1.getPaymentRequest hash = none) ∧
    (view.getProposal hash = none → (stepFund s view fund).1.getProposal hash = none) := by
  obtain ⟨hLoop, hTurns⟩ := stepRequests_spec hs hSolid fund
  obtain ⟨hLoop', hTurns'⟩ := stepProposals_spec hs hLoop.solid (stepRequests s view fund).2
  rw [stepFund_eq hs hSolid]
  refine ⟨fun hNone => ?_, fun hNone => (hTurns' hash).1 ?_⟩
  · rw [hLoop'.frame]
    exact (hTurns hash).1 hNone
  · rw [hLoop.frame]
    exact hNone

end Fund

theorem CConsultationAnswer.turn_entered (s : StepContext) (view : CStateView)
    (a : CConsultationAnswer) : a.mapState.Entered s.pindexNew (a.turn s view).mapState := by
  have hSupport : a.mapState.Entered s.pindexNew (a.supportTurn s view).mapState := by
    unfold supportTurn
    split
    · exact .inr ⟨.accepted, rfl⟩
    · exact .inl rfl
  unfold turn
  split
  · exact .inl rfl
  · split
    · exact hSupport.trans (.inr ⟨.passed, rfl⟩)
    · exact hSupport

theorem CConsultation.turn_entered (s : StepContext) (m : Map Nat Nat) (view : CStateView)
    (c : CConsultation) : c.mapState.Entered s.pindexNew (c.turn s m view).mapState := by
  have hVote : ∀ (d : CConsultation) old, d.mapState.Entered s.pindexNew
      (d.voteTurn s view old).mapState := by
    intro d old
    unfold voteTurn
    split
    · exact .inl rfl
    · exact .inr ⟨_, rfl⟩
  dsimp only [turn]
  split
  · exact .inl rfl
  · rename_i pblockindex _
    have hRecount : (c.recount s view pblockindex).mapState = c.mapState := by rw [recount_eq]
    split
    · exact .inl hRecount
    · rw [← hRecount]
      split
      · exact (hVote _ _).trans (.inr ⟨.passed, rfl⟩)
      · exact hVote _ _

namespace StepRun

variable {s : StepContext} {fCFund fDAOConsultations : Bool} {c : VoteCache}
  {fund fund' : Fund} {view view' : CStateView}
  (run : StepRun s fCFund fDAOConsultations c fund view fund' view')
  (hs : s.pindexDelete = none) (hSolid : Solid view)

include run hs hSolid

/-- The phases after the fund's loops keep the fund's objects up to counters. -/
theorem final_request (hash : UInt256) : (view'.getPaymentRequest hash).map CPaymentRequest.core =
    (run.decided.getPaymentRequest hash).map CPaymentRequest.core := by
  have hFinal : view'.getPaymentRequest hash = run.restarted.getPaymentRequest hash :=
    congrArg (·.getPaymentRequest hash) run.result_frame
  have hChanged : run.changed.getPaymentRequest hash = run.decided.getPaymentRequest hash :=
    congrArg (·.getPaymentRequest hash) (run.changed_frame hs hSolid).1
  rw [hFinal, (run.restarted_countsOnly hs hSolid).paymentRequests, hChanged]

theorem final_proposal (hash : UInt256) : (view'.getProposal hash).map CProposal.core =
    (run.decided.getProposal hash).map CProposal.core := by
  have hFinal : view'.getProposal hash = run.restarted.getProposal hash :=
    congrArg (·.getProposal hash) run.result_frame
  have hChanged : run.changed.getProposal hash = run.decided.getProposal hash :=
    congrArg (·.getProposal hash) (run.changed_frame hs hSolid).1
  rw [hFinal, (run.restarted_countsOnly hs hSolid).proposals, hChanged]

variable {hash : UInt256}

/-- **Payment requests.** A call keeps a request up to counters, voting cycle and a new state;
before the deployment it sets no state. -/
theorem request {r : CPaymentRequest} (hr : view.getPaymentRequest hash = some r) :
    ∃ r', view'.getPaymentRequest hash = some r' ∧ RequestMoved s view r r' ∧
      (fCFund = false → r'.mapState = r.mapState) := by
  have hCounts := run.counted_countsOnly hs hSolid
  obtain ⟨c, hc, hCore⟩ := Map.core_of_some (hCounts.paymentRequests hash).symm hr
  have hDecided : r.getLastState s.env.mapBlockIndex ≠ .nil → c = r := by
    intro hOld
    have hSame := hCounts.decidedRequests hash r hr hOld
    rw [hc] at hSame
    exact some.inj hSame
  have hFund := congrArg Prod.fst run.decided_eq
  have hFinal := run.final_request hs hSolid hash
  cases hActive : fCFund with
  | true =>
    rw [if_pos hActive] at hFund
    obtain ⟨d, hd, hMoved⟩ :=
      stepFund_request hs (run.counted_solid hs hSolid) hCounts.consensus hc
    rw [show run.decided = (stepFund s run.counted fund).1 from hFund, hd] at hFinal
    obtain ⟨r', hr', hCore'⟩ := map_eq_some_iff.mp hFinal
    exact ⟨r', hr', (hMoved.of_counted hCore.symm hDecided).of_core hCore',
      fun hFalse => absurd hFalse.symm Bool.false_ne_true⟩
  | false =>
    rw [if_neg (by rw [hActive]; exact Bool.false_ne_true)] at hFund
    rw [show run.decided = run.counted from hFund, hc] at hFinal
    obtain ⟨r', hr', hCore'⟩ := map_eq_some_iff.mp hFinal
    have hSame : r'.core = r.core := hCore'.trans hCore.symm
    exact ⟨r', hr', .same hSame, fun _ => by rw [CPaymentRequest.eq_of_core hSame]⟩

/-- **Proposals.** The same for a proposal. -/
theorem proposal {p : CProposal} (hp : view.getProposal hash = some p) :
    ∃ p', view'.getProposal hash = some p' ∧ ProposalMoved s view p p' ∧
      (fCFund = false → p'.mapState = p.mapState) := by
  have hCounts := run.counted_countsOnly hs hSolid
  obtain ⟨c, hc, hCore⟩ := Map.core_of_some (hCounts.proposals hash).symm hp
  have hDecided : p.getLastState s.env.mapBlockIndex ≠ .nil → c = p := by
    intro hOld
    have hSame := hCounts.decidedProposals hash p hp hOld
    rw [hc] at hSame
    exact some.inj hSame
  have hFund := congrArg Prod.fst run.decided_eq
  have hFinal := run.final_proposal hs hSolid hash
  cases hActive : fCFund with
  | true =>
    rw [if_pos hActive] at hFund
    obtain ⟨d, hd, hMoved⟩ :=
      stepFund_proposal hs (run.counted_solid hs hSolid) hCounts.consensus hc
    rw [show run.decided = (stepFund s run.counted fund).1 from hFund, hd] at hFinal
    obtain ⟨p', hp', hCore'⟩ := map_eq_some_iff.mp hFinal
    exact ⟨p', hp', (hMoved.of_counted hCore.symm hDecided).of_core hCore',
      fun hFalse => absurd hFalse.symm Bool.false_ne_true⟩
  | false =>
    rw [if_neg (by rw [hActive]; exact Bool.false_ne_true)] at hFund
    rw [show run.decided = run.counted from hFund, hc] at hFinal
    obtain ⟨p', hp', hCore'⟩ := map_eq_some_iff.mp hFinal
    have hSame : p'.core = p.core := hCore'.trans hCore.symm
    exact ⟨p', hp', .same hSame, fun _ => by rw [CProposal.eq_of_core hSame]⟩

/-- **Answers.** A call keeps an answer up to counters and a new state. -/
theorem answer {a : CConsultationAnswer} (ha : view.getConsultationAnswer hash = some a) :
    ∃ a', view'.getConsultationAnswer hash = some a' ∧
      a'.core = { a with mapState := a'.mapState }.core ∧
      a.mapState.Entered s.pindexNew a'.mapState := by
  obtain ⟨b, hb, hCore⟩ := Map.core_of_some
    ((run.counted_countsOnly hs hSolid).answers hash).symm ha
  cases hDAO : fDAOConsultations with
  | true =>
    have hFinal := run.answers hs hSolid hDAO hash
    rw [hb] at hFinal
    obtain ⟨a', ha', hCore'⟩ := map_eq_some_iff.mp hFinal
    have hMap : a'.mapState = (b.turn s run.counted).mapState := by
      rw [CConsultationAnswer.eq_of_core hCore']
    refine ⟨a', ha', ?_, ?_⟩
    · rw [hCore', hMap]
      refine (congrArg CConsultationAnswer.core (b.turn_eq s run.counted)).trans ?_
      rw [CConsultationAnswer.eq_of_core hCore]
      rfl
    · rw [hMap, show a.mapState = b.mapState by rw [CConsultationAnswer.eq_of_core hCore]]
      exact b.turn_entered s run.counted
  | false =>
    subst hDAO
    have hFinal := (run.inactive hs hSolid).2.1 hash
    rw [ha] at hFinal
    obtain ⟨a', ha', hCore'⟩ := map_eq_some_iff.mp hFinal
    refine ⟨a', ha', ?_, .inl ?_⟩
    · rw [CConsultationAnswer.eq_of_core hCore']
      rfl
    · rw [CConsultationAnswer.eq_of_core hCore']

/-- **Consultations.** A call keeps a consultation up to counters, voting cycle and a new
state. -/
theorem consultation {d : CConsultation} (hd : view.getConsultation hash = some d) :
    ∃ d', view'.getConsultation hash = some d' ∧
      d'.core = { d with mapState := d'.mapState, nVotingCycle := d'.nVotingCycle }.core ∧
      d.mapState.Entered s.pindexNew d'.mapState := by
  obtain ⟨b, hb, hCore⟩ := Map.core_of_some
    ((run.counted_countsOnly hs hSolid).consultations hash).symm hd
  cases hDAO : fDAOConsultations with
  | true =>
    obtain ⟨v, -, -, hTurns⟩ := run.consultations hs hSolid hDAO
    have hFinal := hTurns hash
    rw [hb] at hFinal
    obtain ⟨d', hd', hCore'⟩ := map_eq_some_iff.mp hFinal
    have hMap : d'.mapState = (b.turn s run.changes v).mapState := by
      rw [CConsultation.eq_of_core hCore']
    have hCycle : d'.nVotingCycle = (b.turn s run.changes v).nVotingCycle := by
      rw [CConsultation.eq_of_core hCore']
    refine ⟨d', hd', ?_, ?_⟩
    · rw [hCore', hMap, hCycle]
      refine (congrArg CConsultation.core (b.turn_eq s run.changes v)).trans ?_
      rw [CConsultation.eq_of_core hCore]
      rfl
    · rw [hMap, show d.mapState = b.mapState by rw [CConsultation.eq_of_core hCore]]
      exact b.turn_entered s run.changes v
  | false =>
    subst hDAO
    have hFinal := (run.inactive hs hSolid).2.2 hash
    rw [hd] at hFinal
    obtain ⟨d', hd', hCore'⟩ := map_eq_some_iff.mp hFinal
    refine ⟨d', hd', ?_, .inl ?_⟩
    · rw [CConsultation.eq_of_core hCore']
      rfl
    · rw [CConsultation.eq_of_core hCore']

/-- A call adds no object. -/
theorem none_of_none (hash : UInt256) :
    (view.getPaymentRequest hash = none → view'.getPaymentRequest hash = none) ∧
    (view.getProposal hash = none → view'.getProposal hash = none) ∧
    (view.getConsultationAnswer hash = none → view'.getConsultationAnswer hash = none) ∧
    (view.getConsultation hash = none → view'.getConsultation hash = none) := by
  have hCounts := run.counted_countsOnly hs hSolid
  have hFund := congrArg Prod.fst run.decided_eq
  have hDecided : (run.counted.getPaymentRequest hash = none →
        run.decided.getPaymentRequest hash = none) ∧
      (run.counted.getProposal hash = none → run.decided.getProposal hash = none) := by
    split at hFund
    · rw [show run.decided = (stepFund s run.counted fund).1 from hFund]
      exact stepFund_none hs (run.counted_solid hs hSolid) fund hash
    · rw [show run.decided = run.counted from hFund]
      exact ⟨id, id⟩
  refine ⟨fun hNone => ?_, fun hNone => ?_, fun hNone => ?_, fun hNone => ?_⟩
  · have hCounted := hCounts.paymentRequests hash
    rw [hNone, map_none, map_eq_none_iff] at hCounted
    rw [← map_eq_none_iff, run.final_request hs hSolid, hDecided.1 hCounted, map_none]
  · have hCounted := hCounts.proposals hash
    rw [hNone, map_none, map_eq_none_iff] at hCounted
    rw [← map_eq_none_iff, run.final_proposal hs hSolid, hDecided.2 hCounted, map_none]
  · have hCounted := hCounts.answers hash
    rw [hNone, map_none, map_eq_none_iff] at hCounted
    cases hDAO : fDAOConsultations with
    | true =>
      rw [← map_eq_none_iff, run.answers hs hSolid hDAO, hCounted]
      rfl
    | false =>
      subst hDAO
      rw [← map_eq_none_iff, (run.inactive hs hSolid).2.1, hNone]
      rfl
  · have hCounted := hCounts.consultations hash
    rw [hNone, map_none, map_eq_none_iff] at hCounted
    cases hDAO : fDAOConsultations with
    | true =>
      obtain ⟨v, -, -, hTurns⟩ := run.consultations hs hSolid hDAO
      rw [← map_eq_none_iff, hTurns, hCounted]
      rfl
    | false =>
      subst hDAO
      rw [← map_eq_none_iff, (run.inactive hs hSolid).2.2, hNone]
      rfl

/-- The objects after a call, traced back. -/
theorem request_back {r' : CPaymentRequest} (hr' : view'.getPaymentRequest hash = some r') :
    ∃ r, view.getPaymentRequest hash = some r ∧ RequestMoved s view r r' := by
  refine Map.of_changed (run.none_of_none hs hSolid hash).1 (fun r hr => ?_) hr'
  obtain ⟨r', hr', hMoved, -⟩ := run.request hs hSolid hr
  exact ⟨r', hr', hMoved⟩

theorem proposal_back {p' : CProposal} (hp' : view'.getProposal hash = some p') :
    ∃ p, view.getProposal hash = some p ∧ ProposalMoved s view p p' := by
  refine Map.of_changed (run.none_of_none hs hSolid hash).2.1 (fun p hp => ?_) hp'
  obtain ⟨p', hp', hMoved, -⟩ := run.proposal hs hSolid hp
  exact ⟨p', hp', hMoved⟩

theorem answer_back {a' : CConsultationAnswer} (ha' : view'.getConsultationAnswer hash = some a') :
    ∃ a, view.getConsultationAnswer hash = some a ∧
      a'.core = { a with mapState := a'.mapState }.core ∧
      a.mapState.Entered s.pindexNew a'.mapState :=
  Map.of_changed (run.none_of_none hs hSolid hash).2.2.1 (fun _ => run.answer hs hSolid) ha'

theorem consultation_back {d' : CConsultation} (hd' : view'.getConsultation hash = some d') :
    ∃ d, view.getConsultation hash = some d ∧
      d'.core = { d with mapState := d'.mapState, nVotingCycle := d'.nVotingCycle }.core ∧
      d.mapState.Entered s.pindexNew d'.mapState :=
  Map.of_changed (run.none_of_none hs hSolid hash).2.2.2 (fun _ => run.consultation hs hSolid) hd'

/-- A call on a new block enters its states at that block. -/
theorem statesBelow {n : Nat} (hBelow : StatesBelow s.env n view)
    (hKnown : s.env.mapBlockIndex[s.pindexNew.phashBlock]? = some s.pindexNew)
    (hAbove : n ≤ s.pindexNew.nHeight) : StatesBelow s.env s.pindexNew.nHeight view' := by
  refine ⟨fun hash p' hp' => ?_, fun hash r' hr' => ?_, fun hash d' hd' => ?_,
    fun hash a' ha' => ?_⟩
  · obtain ⟨p, hp, hMoved⟩ := run.proposal_back hs hSolid hp'
    refine ((hBelow.proposals hash p hp).mono hAbove).entered hKnown (Nat.le_refl _) ?_
    exact hMoved.moved.imp_right fun ⟨state, hState, _⟩ => ⟨state, hState⟩
  · obtain ⟨r, hr, hMoved⟩ := run.request_back hs hSolid hr'
    refine ((hBelow.paymentRequests hash r hr).mono hAbove).entered hKnown (Nat.le_refl _) ?_
    exact hMoved.moved.imp_right fun ⟨state, hState, _⟩ => ⟨state, hState⟩
  · obtain ⟨d, hd, -, hEntered⟩ := run.consultation_back hs hSolid hd'
    exact ((hBelow.consultations hash d hd).mono hAbove).entered hKnown (Nat.le_refl _) hEntered
  · obtain ⟨a, ha, -, hEntered⟩ := run.answer_back hs hSolid ha'
    exact ((hBelow.answers hash a ha).mono hAbove).entered hKnown (Nat.le_refl _) hEntered

end StepRun

end Electrum
