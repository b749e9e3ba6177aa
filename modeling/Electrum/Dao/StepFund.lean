import Electrum.Dao.StepFrame

/-!
# State changes of payment requests and proposals

One turn of each of the two loops of `VoteStep` over payment requests and proposals, when a
block is connected.  `RequestTurn` and `ProposalTurn` list what a turn can do to its object
and to the fund; everything proved later about these loops goes through them.

Main results:
* `CPaymentRequest.nextState_next`, `CProposal.nextState_next` — when an object enters a state
* `stepPaymentRequest_turn`, `stepProposal_turn` — a turn does what these say, and no more
* `stepRequests_spec`, `stepProposals_spec` — what the two loops do to each object
-/

namespace Electrum

open Bool

/-! ## Payment requests -/

/-- The request with its voting cycle brought up to date, as long as it has no state. -/
def CPaymentRequest.recount (s : StepContext) (pblockindex : CBlockIndex) (r : CPaymentRequest) :
    CPaymentRequest :=
  if r.getLastState s.env.mapBlockIndex == .nil then
    { r with nVotingCycle := s.nVotingCycles pblockindex (s.nCycleLength + 1) } else r

/-- The state that a request enters at a cycle end. -/
inductive RequestNext (env : Env) (view : CStateView) (fund : Fund) (proposal : CProposal)
    (r : CPaymentRequest) (oldState : Flags) : Flags → Prop
  | expire (hExpired : r.isExpired env view = true) (hOld : oldState ≠ .expired) :
      RequestNext env view fund proposal r oldState .expired
  | reject (hExpired : r.isExpired env view = false) (hRejected : r.isRejected env view = true)
      (hOld : oldState ≠ .rejected) : RequestNext env view fund proposal r oldState .rejected
  | accept (hRejected : r.isRejected env view = false) (hOld : oldState = .nil)
      (hProposal : proposal.getLastState env.mapBlockIndex = .accepted ∨
        proposal.getLastState env.mapBlockIndex = .pendingVotingPreq)
      (hAccepted : r.isAccepted env view = true) (hLocked : r.nAmount ≤ fund.nCFLocked)
      (hAvailable : r.nAmount ≤ proposal.getAvailable env view false) :
      RequestNext env view fund proposal r oldState .accepted

variable {view : CStateView} {fund fund' : Fund} {r : CPaymentRequest} {s : StepContext}
  {st : CStateView × Fund} {hash : UInt256} {pblockindex : CBlockIndex} {p : CProposal} {env : Env}
  {proposal p' : CProposal} {oldState state : Flags} {r' : CPaymentRequest}

/-- The three changes of `nextState`, from the order of its tests. -/
theorem CPaymentRequest.nextState_next
    (h : r.nextState env view fund proposal oldState = some state) :
    RequestNext env view fund proposal r oldState state := by
  unfold nextState at h
  cases hExpired : r.isExpired env view with
  | true =>
    rw [hExpired, if_pos rfl] at h
    split at h
    case isFalse => cases h
    case isTrue hNe =>
      cases h
      exact .expire hExpired (bne_iff_ne.mp hNe)
  | false =>
    rw [hExpired, if_neg Bool.false_ne_true] at h
    cases hRejected : r.isRejected env view with
    | true =>
      rw [hRejected, if_pos rfl] at h
      split at h
      case isFalse => cases h
      case isTrue hNe =>
        cases h
        exact .reject hExpired hRejected (bne_iff_ne.mp hNe)
    | false =>
      rw [hRejected, if_neg Bool.false_ne_true] at h
      dsimp only at h
      split at h
      case isFalse => cases h
      case isTrue hNil =>
        split at h
        case isFalse => cases h
        case isTrue hCond =>
          cases h
          simp only [and_eq_true, or_eq_true, beq_iff_eq, decide_eq_true_eq] at hCond
          obtain ⟨⟨⟨hProposal, hAccepted⟩, hLocked⟩, hAvailable⟩ := hCond
          exact .accept hRejected (beq_iff_eq.mp hNil) hProposal hAccepted hLocked hAvailable

/-- What a turn can make of a payment request and the fund. -/
inductive RequestTurn (s : StepContext) (view : CStateView) (fund : Fund) (hash : UInt256)
    (r : CPaymentRequest) : CPaymentRequest → Fund → Prop
  /-- its block or its proposal is unknown -/
  | skip : RequestTurn s view fund hash r r fund
  /-- no cycle ends, or nothing is decided -/
  | stay (pblockindex : CBlockIndex) :
      RequestTurn s view fund hash r (r.recount s pblockindex) fund
  /-- a cycle ends and the request changes its state -/
  | move {pblockindex : CBlockIndex} {proposal : CProposal} {state : Flags}
      (hProposal : view.getProposal r.proposalhash = some proposal) (hEnd : s.isCycleEnd = true)
      (hNext : (r.recount s pblockindex).nextState s.env
        (view.setPaymentRequest hash (r.recount s pblockindex)) fund proposal
        (r.getLastState s.env.mapBlockIndex) = some state) :
      RequestTurn s view fund hash r ((r.recount s pblockindex).setState s.pindexNew state)
        (if state == .accepted then { fund with nCFLocked := fund.nCFLocked - r.nAmount }
          else fund)

/-- **One turn of the first loop.** -/
theorem stepPaymentRequest_turn (hs : s.pindexDelete = none) (hSolid : Solid st.1)
    (hr : st.1.getPaymentRequest hash = some r) :
    ∃ r' fund', RequestTurn s st.1 st.2 hash r r' fund' ∧
      stepPaymentRequest s st hash = (st.1.setPaymentRequest hash r', fund') := by
  have hSelf : st = (st.1.setPaymentRequest hash r, st.2) := by
    rw [CStateView.setPaymentRequest_self hr (hSolid.request_notNull hr)]
  unfold stepPaymentRequest
  rw [hr]
  dsimp only
  split
  case h_2 => exact ⟨r, st.2, .skip, hSelf⟩
  case h_1 pblockindex proposal hBlock hProposal =>
    rw [hs]
    dsimp only
    have hRecount : (if r.getLastState s.env.mapBlockIndex == .nil then
        { r with nVotingCycle := s.nVotingCycles pblockindex (s.nCycleLength + 1) } else r) =
        r.recount s pblockindex := rfl
    rw [hRecount]
    split
    case isTrue => exact ⟨_, _, .stay pblockindex, rfl⟩
    case isFalse hEnd =>
      rw [not_eq_true, not_eq_false'] at hEnd
      split
      case h_1 => exact ⟨_, _, .stay pblockindex, rfl⟩
      case h_2 state hNext =>
        refine ⟨_, _, .move hProposal hEnd hNext, ?_⟩
        have hAmount : (r.recount s pblockindex).nAmount = r.nAmount := by
          unfold CPaymentRequest.recount
          split <;> rfl
        rw [hAmount, CStateView.setPaymentRequest_twice]

/-- A turn keeps everything but the state and the voting cycle. -/
theorem CPaymentRequest.recount_eq (s : StepContext) (pblockindex : CBlockIndex)
    (r : CPaymentRequest) :
    r.recount s pblockindex = { r with nVotingCycle := (r.recount s pblockindex).nVotingCycle } := by
  unfold recount
  split <;> rfl

/-- A request with a state keeps its voting cycle. -/
theorem CPaymentRequest.recount_decided (hOld : r.getLastState s.env.mapBlockIndex ≠ .nil) :
    r.recount s pblockindex = r := by
  unfold recount
  rw [if_neg (by simpa using hOld)]

theorem RequestTurn.kept (h : RequestTurn s view fund hash r r' fund') :
    r' = { r with mapState := r'.mapState, nVotingCycle := r'.nVotingCycle } := by
  cases h with
  | skip => rfl
  | stay pblockindex =>
    rw [CPaymentRequest.recount_eq]
  | move hProposal hEnd hNext =>
    rw [CPaymentRequest.recount_eq]
    rfl

theorem RequestTurn.solid (h : RequestTurn s view fund hash r r' fund')
    (hSolid : r.core.isNull = false) : r'.core.isNull = false := by
  cases h with
  | skip => exact hSolid
  | stay pblockindex =>
    rw [CPaymentRequest.recount_eq]
    exact hSolid
  | move hProposal hEnd hNext =>
    -- a request with a state is not null
    simp [CPaymentRequest.isNull, CPaymentRequest.core, CPaymentRequest.setState, StateMap.setState]

/-- What the first loop keeps: everything but the requests. -/
structure RequestLoop (view : CStateView) (st : CStateView × Fund) : Prop where
  frame : st.1 = { view with paymentRequests := st.1.paymentRequests }
  solid : Solid st.1

theorem RequestLoop.of_loop (hSolid : Solid view)
    (h : requestTable.Loop (fun _ r => r.core.isNull = false) view st.1) : RequestLoop view st := by
  refine ⟨h.frame, ?_⟩
  rw [h.frame]
  exact ⟨hSolid.proposals, h.good, hSolid.consultations, hSolid.answers⟩

theorem stepPaymentRequest_none (st : CStateView × Fund) (hash : UInt256)
    (h : requestTable.get st.1 hash = none) : stepPaymentRequest s st hash = st := by
  unfold stepPaymentRequest
  rw [show st.1.getPaymentRequest hash = none from h]

theorem stepPaymentRequest_table (hs : s.pindexDelete = none) (hSolid : Solid view)
    (mid : CStateView × Fund) (hash : UInt256) (r : CPaymentRequest)
    (hMid : requestTable.Loop (fun _ r => r.core.isNull = false) view mid.1)
    (hr : requestTable.get mid.1 hash = some r) : ∃ r', r'.core.isNull = false ∧
      (stepPaymentRequest s mid hash).1 = requestTable.set mid.1 hash r' := by
  obtain ⟨r', fund', hTurn, hEq⟩ :=
    stepPaymentRequest_turn hs (RequestLoop.of_loop hSolid hMid).solid hr
  exact ⟨r', hTurn.solid (hMid.good hash r hr), by rw [hEq]; rfl⟩

/-- The loop over the payment requests. -/
def stepRequests (s : StepContext) (view : CStateView) (fund : Fund) : CStateView × Fund :=
  view.paymentRequests.keys.foldl (stepPaymentRequest s) (view, fund)

/-- Every payment request takes its turn, on the fund and the requests as the turns before it left
them. -/
theorem stepRequests_turns (hs : s.pindexDelete = none) (hSolid : Solid view) (fund : Fund) :
    RequestLoop view (stepRequests s view fund) ∧
    ∀ hash, (view.getPaymentRequest hash = none →
        (stepRequests s view fund).1.getPaymentRequest hash = none) ∧
      ∀ r, view.getPaymentRequest hash = some r → ∃ mid,
        RequestLoop view mid ∧ mid.1.getPaymentRequest hash = some r ∧
        (stepRequests s view fund).1.getPaymentRequest hash =
          (stepPaymentRequest s mid hash).1.getPaymentRequest hash := by
  obtain ⟨hLoop, hEach⟩ := requestTable.foldl_turns _ Prod.fst (view, fund)
    CPaymentRequest.notNull_of_core (stepPaymentRequest_none (s := s))
    (stepPaymentRequest_table hs hSolid) (Map.nodup_keys view.paymentRequests)
    (Map.mem_keys_iff view.paymentRequests) hSolid.paymentRequests
  refine ⟨.of_loop hSolid hLoop, fun hash => ⟨(hEach hash).1, fun r hr => ?_⟩⟩
  obtain ⟨mid, hMid, hr', hEnd⟩ := (hEach hash).2 r hr
  exact ⟨mid, .of_loop hSolid hMid, hr', hEnd⟩

/-- **The first loop.** What the turns make of each request. -/
theorem stepRequests_spec (hs : s.pindexDelete = none) (hSolid : Solid view) (fund : Fund) :
    RequestLoop view (stepRequests s view fund) ∧
    ∀ hash, (view.getPaymentRequest hash = none →
        (stepRequests s view fund).1.getPaymentRequest hash = none) ∧
      ∀ r, view.getPaymentRequest hash = some r → ∃ mid r' fund',
        RequestLoop view mid ∧ mid.1.getPaymentRequest hash = some r ∧
        RequestTurn s mid.1 mid.2 hash r r' fund' ∧
        (stepRequests s view fund).1.getPaymentRequest hash = some r' := by
  obtain ⟨hLoop, hTurns⟩ := stepRequests_turns hs hSolid fund
  refine ⟨hLoop, fun hash => ⟨(hTurns hash).1, ?_⟩⟩
  intro r hr
  obtain ⟨mid, hMid, hr', hTurn⟩ := (hTurns hash).2 r hr
  obtain ⟨r', fund', hStep, hEq⟩ := stepPaymentRequest_turn hs hMid.solid hr'
  refine ⟨mid, r', fund', hMid, hr', hStep, ?_⟩
  refine hTurn.trans ?_
  rw [hEq, CStateView.getPaymentRequest_set (CPaymentRequest.notNull_of_core
    (hStep.solid (hMid.solid.paymentRequests hash r hr'))), if_pos rfl]

/-- The request after its turn at a cycle end, when its block and its proposal are known. -/
def CPaymentRequest.endTurn (s : StepContext) (view : CStateView) (fund : Fund) (hash : UInt256)
    (pblockindex : CBlockIndex) (proposal : CProposal) (r : CPaymentRequest) : CPaymentRequest :=
  match (r.recount s pblockindex).nextState s.env
      (view.setPaymentRequest hash (r.recount s pblockindex)) fund proposal
      (r.getLastState s.env.mapBlockIndex) with
  | none => r.recount s pblockindex
  | some state => (r.recount s pblockindex).setState s.pindexNew state

/-- At a cycle end the loop gives a request its turn. -/
theorem stepPaymentRequest_end (hs : s.pindexDelete = none) (hSolid : Solid st.1)
    (hr : st.1.getPaymentRequest hash = some r)
    (hBlock : s.env.blockOf r.txblockhash = some pblockindex)
    (hProposal : st.1.getProposal r.proposalhash = some proposal) (hEnd : s.isCycleEnd = true) :
    (stepPaymentRequest s st hash).1.getPaymentRequest hash =
      some (r.endTurn s st.1 st.2 hash pblockindex proposal) := by
  have hNull : (r.recount s pblockindex).isNull = false := by
    refine CPaymentRequest.notNull_of_core ?_
    rw [CPaymentRequest.recount_eq]
    exact hSolid.paymentRequests hash r hr
  have hRecount : (if r.getLastState s.env.mapBlockIndex == .nil then
      { r with nVotingCycle := s.nVotingCycles pblockindex (s.nCycleLength + 1) } else r) =
      r.recount s pblockindex := rfl
  unfold stepPaymentRequest CPaymentRequest.endTurn
  rw [hr]
  dsimp only
  rw [hBlock, hProposal]
  dsimp only
  rw [hs]
  rw [hRecount, hEnd, Bool.not_true, if_neg Bool.false_ne_true]
  cases (r.recount s pblockindex).nextState s.env
      (st.1.setPaymentRequest hash (r.recount s pblockindex)) st.2 proposal
      (r.getLastState s.env.mapBlockIndex) with
  | none => rw [CStateView.getPaymentRequest_set hNull, if_pos rfl]
  | some state =>
    -- a request with a state is not null
    rw [CStateView.getPaymentRequest_set
      (by simp [CPaymentRequest.isNull, CPaymentRequest.setState, StateMap.setState]), if_pos rfl]

/-! ## Proposals -/

/-- The proposal with its voting cycle brought up to date, as long as it has no state. -/
def CProposal.recount (s : StepContext) (view : CStateView) (pblockindex : CBlockIndex)
    (p : CProposal) : CProposal :=
  let bound := getConsensusParameter s.env view .proposalMaxVotingCycles + 1
  if p.getLastState s.env.mapBlockIndex == .nil then
    { p with nVotingCycle := s.nVotingCycles pblockindex bound } else p

/-- The state that a proposal enters at a cycle end. -/
inductive ProposalNext (env : Env) (view : CStateView) (fund : Fund) (currentTime : Nat)
    (p : CProposal) (oldState : Flags) : Flags → Prop
  | wait (hExpired : p.isExpired env view currentTime = true) (hOld : oldState ≠ .expired)
      (hPending : p.hasPendingPaymentRequests env view = true) :
      ProposalNext env view fund currentTime p oldState .pendingVotingPreq
  | expire (hExpired : p.isExpired env view currentTime = true) (hOld : oldState ≠ .expired) :
      ProposalNext env view fund currentTime p oldState .expired
  | reject (hExpired : p.isExpired env view currentTime = false)
      (hRejected : p.isRejected env view = true) (hOld : oldState ≠ .rejected) :
      ProposalNext env view fund currentTime p oldState .rejected
  | accept (hOld : oldState = .nil ∨ oldState = .pendingFunds)
      (hSupply : p.getAvailable env view false ≤ fund.nCFSupply) :
      ProposalNext env view fund currentTime p oldState .accepted
  | lackFunds (hOld : oldState = .nil) :
      ProposalNext env view fund currentTime p oldState .pendingFunds

/-- The five changes of `nextState`, from the order of its tests. -/
theorem CProposal.nextState_next {currentTime : Nat}
    (h : p.nextState env view fund currentTime oldState = some state) :
    ProposalNext env view fund currentTime p oldState state := by
  unfold nextState at h
  cases hExpired : p.isExpired env view currentTime with
  | true =>
    rw [hExpired, if_pos rfl] at h
    split at h
    case isFalse => cases h
    case isTrue hNe =>
      split at h
      case isTrue hPending =>
        cases h
        exact .wait hExpired (bne_iff_ne.mp hNe) hPending
      case isFalse =>
        cases h
        exact .expire hExpired (bne_iff_ne.mp hNe)
  | false =>
    rw [hExpired, if_neg Bool.false_ne_true] at h
    cases hRejected : p.isRejected env view with
    | true =>
      rw [hRejected, if_pos rfl] at h
      split at h
      case isFalse => cases h
      case isTrue hNe =>
        cases h
        exact .reject hExpired hRejected (bne_iff_ne.mp hNe)
    | false =>
      rw [hRejected, if_neg Bool.false_ne_true] at h
      split at h
      case isFalse => cases h
      case isTrue =>
        split at h
        case isFalse => cases h
        case isTrue hOld =>
          simp only [or_eq_true, beq_iff_eq] at hOld
          split at h
          case isTrue hSupply =>
            cases h
            exact .accept hOld hSupply
          case isFalse =>
            split at h
            case isFalse => cases h
            case isTrue hNe =>
              cases h
              exact .lackFunds (hOld.resolve_right (bne_iff_ne.mp hNe))

/-- What a turn can make of a proposal and the fund. -/
inductive ProposalTurn (s : StepContext) (view : CStateView) (fund : Fund) (hash : UInt256)
    (p : CProposal) : CProposal → Fund → Prop
  /-- its block is unknown -/
  | skip : ProposalTurn s view fund hash p p fund
  /-- no cycle ends, or nothing is decided -/
  | stay (pblockindex : CBlockIndex) :
      ProposalTurn s view fund hash p (p.recount s view pblockindex) fund
  /-- a cycle ends and the proposal changes its state -/
  | move {pblockindex : CBlockIndex} {state : Flags} (hEnd : s.isCycleEnd = true)
      (hNext : (p.recount s view pblockindex).nextState s.env
        (view.setProposal hash (p.recount s view pblockindex)) fund s.pindexNew.nTime
        (p.getLastState s.env.mapBlockIndex) = some state) :
      ProposalTurn s view fund hash p ((p.recount s view pblockindex).setState s.pindexNew state)
        (fund.onProposal ((p.recount s view pblockindex).getAvailable s.env
          (view.setProposal hash (p.recount s view pblockindex)) false)
          (p.getLastState s.env.mapBlockIndex) state)

/-- **One turn of the second loop.** -/
theorem stepProposal_turn (hs : s.pindexDelete = none) (hSolid : Solid st.1)
    (hp : st.1.getProposal hash = some p) :
    ∃ p' fund', ProposalTurn s st.1 st.2 hash p p' fund' ∧
      stepProposal s st hash = (st.1.setProposal hash p', fund') := by
  have hSelf : st = (st.1.setProposal hash p, st.2) := by
    rw [CStateView.setProposal_self hp (hSolid.proposal_notNull hp)]
  unfold stepProposal
  rw [hp]
  dsimp only
  split
  case h_1 => exact ⟨p, st.2, .skip, hSelf⟩
  case h_2 pblockindex hBlock =>
    rw [hs]
    dsimp only
    have hRecount (bound : Nat)
        (hb : bound = getConsensusParameter s.env st.1 .proposalMaxVotingCycles + 1) :
        (if p.getLastState s.env.mapBlockIndex == .nil then
          { p with nVotingCycle := s.nVotingCycles pblockindex bound } else p) =
        p.recount s st.1 pblockindex := by
      rw [hb]
      rfl
    rw [hRecount _ rfl]
    split
    case isTrue => exact ⟨_, _, .stay pblockindex, rfl⟩
    case isFalse hEnd =>
      rw [not_eq_true, not_eq_false'] at hEnd
      split
      case h_1 => exact ⟨_, _, .stay pblockindex, rfl⟩
      case h_2 state hNext =>
        refine ⟨_, _, .move hEnd hNext, ?_⟩
        rw [CStateView.setProposal_twice]

theorem CProposal.recount_eq (s : StepContext) (view : CStateView) (pblockindex : CBlockIndex)
    (p : CProposal) :
    p.recount s view pblockindex =
      { p with nVotingCycle := (p.recount s view pblockindex).nVotingCycle } := by
  dsimp only [recount]
  split <;> rfl

theorem CProposal.recount_decided
    (hOld : p.getLastState s.env.mapBlockIndex ≠ .nil) : p.recount s view pblockindex = p := by
  dsimp only [recount]
  rw [if_neg (by simpa using hOld)]

theorem ProposalTurn.kept (h : ProposalTurn s view fund hash p p' fund') :
    p' = { p with mapState := p'.mapState, nVotingCycle := p'.nVotingCycle } := by
  cases h with
  | skip => rfl
  | stay pblockindex =>
    rw [CProposal.recount_eq]
  | move hEnd hNext =>
    rw [CProposal.recount_eq]
    rfl

theorem ProposalTurn.solid (h : ProposalTurn s view fund hash p p' fund')
    (hSolid : p.core.isNull = false) : p'.core.isNull = false := by
  cases h with
  | skip => exact hSolid
  | stay pblockindex =>
    rw [CProposal.recount_eq]
    exact hSolid
  | move hEnd hNext =>
    -- a proposal with a state is not null
    simp [CProposal.isNull, CProposal.core, CProposal.setState, StateMap.setState]

/-- What the second loop keeps: everything but the proposals. -/
structure ProposalLoop (view : CStateView) (st : CStateView × Fund) : Prop where
  frame : st.1 = { view with proposals := st.1.proposals }
  solid : Solid st.1

theorem ProposalLoop.of_loop (hSolid : Solid view)
    (h : proposalTable.Loop (fun _ p => p.core.isNull = false) view st.1) : ProposalLoop view st := by
  refine ⟨h.frame, ?_⟩
  rw [h.frame]
  exact ⟨h.good, hSolid.paymentRequests, hSolid.consultations, hSolid.answers⟩

theorem stepProposal_none (st : CStateView × Fund) (hash : UInt256)
    (h : proposalTable.get st.1 hash = none) : stepProposal s st hash = st := by
  unfold stepProposal
  rw [show st.1.getProposal hash = none from h]

theorem stepProposal_table (hs : s.pindexDelete = none) (hSolid : Solid view)
    (mid : CStateView × Fund) (hash : UInt256) (p : CProposal)
    (hMid : proposalTable.Loop (fun _ p => p.core.isNull = false) view mid.1)
    (hp : proposalTable.get mid.1 hash = some p) : ∃ p', p'.core.isNull = false ∧
      (stepProposal s mid hash).1 = proposalTable.set mid.1 hash p' := by
  obtain ⟨p', fund', hTurn, hEq⟩ :=
    stepProposal_turn hs (ProposalLoop.of_loop hSolid hMid).solid hp
  exact ⟨p', hTurn.solid (hMid.good hash p hp), by rw [hEq]; rfl⟩

/-- The loop over the proposals. -/
def stepProposals (s : StepContext) (view : CStateView) (fund : Fund) : CStateView × Fund :=
  view.proposals.keys.foldl (stepProposal s) (view, fund)

/-- **The second loop.** Every proposal takes one turn. -/
theorem stepProposals_spec (hs : s.pindexDelete = none) (hSolid : Solid view) (fund : Fund) :
    ProposalLoop view (stepProposals s view fund) ∧
    ∀ hash, (view.getProposal hash = none → (stepProposals s view fund).1.getProposal hash = none) ∧
      ∀ p, view.getProposal hash = some p → ∃ mid p' fund',
        ProposalLoop view mid ∧ mid.1.getProposal hash = some p ∧
        ProposalTurn s mid.1 mid.2 hash p p' fund' ∧
        (stepProposals s view fund).1.getProposal hash = some p' := by
  obtain ⟨hLoop, hEach⟩ := proposalTable.foldl_turns _ Prod.fst (view, fund)
    CProposal.notNull_of_core (stepProposal_none (s := s)) (stepProposal_table hs hSolid)
    (Map.nodup_keys view.proposals) (Map.mem_keys_iff view.proposals) hSolid.proposals
  refine ⟨.of_loop hSolid hLoop, fun hash => ⟨(hEach hash).1, fun p hp => ?_⟩⟩
  obtain ⟨mid, hMid, hp', hEnd⟩ := (hEach hash).2 p hp
  have hSolid' := (ProposalLoop.of_loop hSolid hMid).solid
  obtain ⟨p', fund', hStep, hEq⟩ := stepProposal_turn hs hSolid' hp'
  refine ⟨mid, p', fund', .of_loop hSolid hMid, hp', hStep, hEnd.trans ?_⟩
  rw [hEq]
  exact (CStateView.getProposal_set (CProposal.notNull_of_core
    (hStep.solid (hMid.good hash p hp'))) hash).trans (if_pos rfl)

/-- The second loop goes over the proposals of the view, which the first loop keeps. -/
theorem stepFund_eq (hs : s.pindexDelete = none) (hSolid : Solid view) (fund : Fund) :
    stepFund s view fund =
      stepProposals s (stepRequests s view fund).1 (stepRequests s view fund).2 := by
  have hKeys : (stepRequests s view fund).1.proposals = view.proposals := by
    rw [(stepRequests_spec hs hSolid fund).1.frame]
  unfold stepProposals
  rw [hKeys]
  rfl

end Electrum
