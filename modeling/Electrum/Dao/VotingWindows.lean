import Electrum.Dao.Metadata
import Electrum.Dao.Outcome
import Electrum.Dao.StepMoves

/-!
# The ends of voting windows

At the end of a cycle `VoteStep` lets a payment request without a state expire after
`paymentRequestMaxVotingCycles` cycles and a consultation after `consultationMaxSupportCycles`, and
moves a supported consultation on after `consultationMinCycles`.  The number of cycles that these
tests read is the one that the object stores, and that is capped by another parameter: by the cycle
length for a payment request, and by `consultationMaxVotingCycles` for a consultation.  Where the
cap is below the bound of the test, the window never closes.

Main results:
* `CycleEnd.request`, `CycleEnd.consultation` — what a call at the end of a cycle makes of an object
* `windows_close` — the values of the parameters for which all windows close
* `windows_stay_open` — a request that waits for ever
-/

namespace Electrum

open Std.ExtTreeMap Option Nat

/-! ## Stored cycles -/

/-- The cycles between two blocks. -/
def elapsedCycles (nCycleLength : Nat) (pindex pblockindex : CBlockIndex) : Nat :=
  pindex.nHeight / nCycleLength - pblockindex.nHeight / nCycleLength

/-- The stored number of cycles reaches `k` once these have elapsed, if the cap does. -/
theorem StepContext.le_nVotingCycles {s : StepContext} {pblockindex : CBlockIndex} {bound k : Nat}
    (hElapsed : k ≤ elapsedCycles s.nCycleLength s.pindexNew pblockindex)
    (hHeight : s.pindexNew.nHeight < 2 ^ 64) (hCap : k ≤ bound) (hBound : bound < 2 ^ 32) :
    k ≤ s.nVotingCycles pblockindex bound := by
  unfold elapsedCycles at hElapsed
  have hQuotient : s.pindexNew.nHeight / s.nCycleLength ≤ s.pindexNew.nHeight := div_le_self _ _
  rcases Nat.eq_zero_or_pos k with rfl | hk
  · exact zero_le _
  · unfold nVotingCycles
    rw [sub64_of_le (by omega) (by omega), mod_eq_of_lt (by omega : bound < 2 ^ 64),
      mod_eq_of_lt (by omega), le_min_iff]
    exact ⟨hElapsed, hCap⟩

/-! ## Turns at a cycle end -/

section Request

variable {s : StepContext} {view : CStateView} {fund : Fund} {hash : UInt256}
  {pblockindex : CBlockIndex} {proposal : CProposal} {r : CPaymentRequest}

/-- Without a state, whether a request expires is a matter of its stored cycles. -/
theorem CPaymentRequest.isExpired_nil {env : Env} (hNil : r.getLastState env.mapBlockIndex = .nil)
    (hVersion : BASE_VERSION ≤ toU64 r.nVersion) :
    r.isExpired env view = true ↔
      getConsensusParameter env view .paymentRequestMaxVotingCycles < r.nVotingCycle := by
  unfold isExpired exceededMaxVotingCycles
  simp [hVersion, hNil]

theorem CPaymentRequest.endTurn_expired (hNil : r.getLastState s.env.mapBlockIndex = .nil)
    (hExpired : (r.recount s pblockindex).isExpired s.env
      (view.setPaymentRequest hash (r.recount s pblockindex)) = true) :
    r.endTurn s view fund hash pblockindex proposal =
      (r.recount s pblockindex).setState s.pindexNew .expired := by
  unfold endTurn nextState
  rw [hExpired, hNil]
  rfl

end Request

namespace CConsultation

variable {s : StepContext} {view : CStateView} {m : Map Nat Nat} {pblockindex : CBlockIndex}
  {c : CConsultation}

/-- A consultation that is not under vote takes only the first half of the turn. -/
theorem turn_of_not_accepted (hBlock : s.env.blockOf c.txblockhash = some pblockindex)
    (hEnd : s.isCycleEnd = true) (hOld : c.getLastState s.env.mapBlockIndex ≠ .accepted) :
    c.turn s m view = (c.recount s view pblockindex).voteTurn s view
      (c.getLastState s.env.mapBlockIndex) := by
  unfold turn
  rw [hBlock]
  simp [hEnd, hOld]

theorem recount_cycle (hOld : c.getLastState s.env.mapBlockIndex = .nil ∨
      c.getLastState s.env.mapBlockIndex = .supported) :
    (c.recount s view pblockindex).nVotingCycle = s.nVotingCycles pblockindex
      (getConsensusParameter s.env view .consultationMaxVotingCycles + 1) := by
  unfold recount
  rcases hOld with hOld | hOld <;> simp [hOld]

theorem recount_isSupported :
    (c.recount s view pblockindex).isSupported s.env view = c.isSupported s.env view := by
  rw [recount_eq]
  rfl

variable (view) in
/-- Without a state, a consultation expires by its stored cycles. -/
theorem voteTurn_expired (hNil : c.getLastState s.env.mapBlockIndex = .nil)
    (hCycles : getConsensusParameter s.env view .consultationMaxSupportCycles ≤ c.nVotingCycle) :
    c.voteTurn s view .nil = c.setState s.pindexNew .expired := by
  have hExpired : c.isExpired s.env view s.pindexNew = true := by
    unfold isExpired exceededMaxVotingCycles
    simp [hNil, hCycles]
  unfold voteTurn nextState
  rw [hExpired]
  rfl

variable (view) in
/-- A supported consultation enters its reflection by its stored cycles. -/
theorem voteTurn_reflection (hOld : c.getLastState s.env.mapBlockIndex = .supported)
    (hSupported : c.isSupported s.env view = true)
    (hCycles : getConsensusParameter s.env view .consultationMinCycles ≤ c.nVotingCycle) :
    c.voteTurn s view .supported = c.setState s.pindexNew .reflection := by
  have hExpired : c.isExpired s.env view s.pindexNew = false := by
    unfold isExpired
    simp [hOld]
  unfold voteTurn nextState canMoveInReflection
  rw [hExpired]
  simp [hSupported, hCycles]

end CConsultation

/-! ## The call -/

/-- A call of `VoteStep` at the last block of a cycle that succeeds, where the parameters have some
values and both deployments are active.  The objects are as the chain leaves them: none is null, and
no state was entered at this block's height. -/
structure CycleEnd (params : ConsensusParamsPos → Nat) where
  env : Env
  votes : RecordedVotes
  pindex : CBlockIndex
  pprev : Chain
  fund : Fund
  view : CStateView
  cache : VoteCache
  result : CStateView × Fund × VoteCache
  step : voteStep env votes (pindex :: pprev) false fund view cache = some result
  values : ∀ pos, getConsensusParameter env view pos = params pos
  ends : (pindex.nHeight + 1) % params .votingCycleLength = 0
  activeFund : env.isActive .communityFund pprev = true
  activeConsultations : env.isActive .consultations pprev = true
  solid : Solid view
  below : StatesBelow env (pindex.nHeight - 1) view
  known : env.mapBlockIndex[pindex.phashBlock]? = some pindex
  /-- the code adds one to the height, an `int` -/
  height : 0 < pindex.nHeight ∧ pindex.nHeight + 1 < 2 ^ 31

namespace CycleEnd

variable {params : ConsensusParamsPos → Nat} (call : CycleEnd params)

/-- What the call fixes at its start. -/
def context : StepContext :=
  .connecting call.env call.votes call.pindex call.pprev call.view call.cache

/-- The view with the votes of the cycle counted. -/
def counted : CStateView :=
  countedView call.env call.votes call.pindex call.pprev call.view call.cache

theorem context_env : call.context.env = call.env := rfl

theorem context_length : call.context.nCycleLength = params .votingCycleLength :=
  call.values .votingCycleLength

theorem height_fits : call.context.pindexNew.nHeight < 2 ^ 64 := by
  have hHeight := call.height.2
  show call.pindex.nHeight < 2 ^ 64
  omega

theorem context_ends : call.context.isCycleEnd = true := by
  unfold StepContext.isCycleEnd
  rw [call.context_length]
  exact beq_iff_eq.mpr call.ends

theorem exists_run : ∃ run : StepRun call.context true true
    (scanFor call.env call.votes call.pindex call.pprev call.view call.cache).2 call.fund call.view
    call.result.2.1 call.result.1, run.counted = call.counted := by
  have hRun := (voteStep_run call.step).2.2
  rw [call.activeFund, call.activeConsultations] at hRun
  exact hRun

theorem counted_countsOnly : CountsOnly call.env call.view call.counted := by
  obtain ⟨run, hCounted⟩ := call.exists_run
  rw [← hCounted]
  exact run.counted_countsOnly rfl call.solid

/-- The parameters while the votes are counted. -/
theorem counted_values {view : CStateView} (hView : view.consensus = call.counted.consensus)
    (pos : ConsensusParamsPos) : getConsensusParameter call.env view pos = params pos := by
  rw [getConsensusParameter_congr (hView.trans call.counted_countsOnly.consensus)]
  exact call.values pos

/-- A state that is entered at this block is the last one. -/
theorem entered {mapState : StateMap}
    (hBelow : mapState.Below call.env.mapBlockIndex (call.pindex.nHeight - 1)) (state : Flags) :
    (mapState.setState call.pindex state).getLastState call.env.mapBlockIndex = state :=
  hBelow.getLastState_setState call.known (sub_one_lt_of_lt call.height.1) state

variable {hash : UInt256} {pblockindex : CBlockIndex}

/-- A cycle that ends here leaves room for those that have elapsed before it. -/
theorem cycles_fit {k : Nat}
    (hElapsed : k ≤ elapsedCycles (params .votingCycleLength) call.pindex pblockindex) :
    (k + 1) * params .votingCycleLength < 2 ^ 31 := by
  obtain ⟨q, hq⟩ := dvd_of_mod_eq_zero call.ends
  have hBelow : call.pindex.nHeight / params .votingCycleLength < q := by
    refine lt_of_mul_lt_mul_left (a := params .votingCycleLength) ?_ (zero_le _)
    have hFloor := mul_div_le call.pindex.nHeight (params .votingCycleLength)
    omega
  have hCycle : k + 1 ≤ q := succ_le_of_lt ((hElapsed.trans (Nat.sub_le _ _)).trans_lt hBelow)
  calc (k + 1) * params .votingCycleLength
      ≤ q * params .votingCycleLength := Nat.mul_le_mul_right _ hCycle
    _ = call.pindex.nHeight + 1 := by rw [hq, Nat.mul_comm]
    _ < 2 ^ 31 := call.height.2

/-- What the call makes of a payment request whose block and proposal are known. -/
theorem request {r : CPaymentRequest}
    {proposal : CProposal} (hr : call.view.getPaymentRequest hash = some r)
    (hBlock : call.env.blockOf r.txblockhash = some pblockindex)
    (hProposal : call.view.getProposal r.proposalhash = some proposal) :
    ∃ (c : CPaymentRequest) (p : CProposal) (mid : CStateView) (fund : Fund) (r' : CPaymentRequest),
      c.core = r.core ∧ mid.consensus = call.counted.consensus ∧
      call.result.1.getPaymentRequest hash = some r' ∧
      r'.core = (c.endTurn call.context mid fund hash pblockindex p).core := by
  obtain ⟨run, hCounted⟩ := call.exists_run
  have hCounts := call.counted_countsOnly
  obtain ⟨c, hc, hCore⟩ := Map.core_of_some (hCounts.paymentRequests hash).symm hr
  obtain ⟨p, hp, -⟩ := Map.core_of_some (hCounts.proposals r.proposalhash).symm hProposal
  have hSolid : Solid call.counted := hCounts.toSameCore.solid call.solid
  obtain ⟨hLoop, hTurns⟩ := stepRequests_turns (s := call.context) rfl hSolid call.fund
  obtain ⟨mid, hMid, hcMid, hTurn⟩ := (hTurns hash).2 c hc
  have hSame := CPaymentRequest.eq_of_core hCore.symm
  have hEnd : (stepPaymentRequest call.context mid hash).1.getPaymentRequest hash =
      some (c.endTurn call.context mid.1 mid.2 hash pblockindex p) := by
    refine stepPaymentRequest_end rfl hMid.solid hcMid ?_ ?_ call.context_ends
    · rw [hSame]
      exact hBlock
    · rw [hMid.frame, hSame]
      exact hp
  have hDecided : run.decided.getPaymentRequest hash =
      some (c.endTurn call.context mid.1 mid.2 hash pblockindex p) := by
    have hFund : run.decided = (stepFund call.context call.counted call.fund).1 := by
      rw [← hCounted]
      exact congrArg Prod.fst run.decided_eq
    rw [hFund, stepFund_eq rfl hSolid, (stepProposals_spec rfl hLoop.solid _).1.frame]
    exact hTurn.trans hEnd
  have hFinal := run.final_request rfl call.solid hash
  rw [hDecided] at hFinal
  obtain ⟨r', hr', hCoreFinal⟩ := map_eq_some_iff.mp hFinal
  exact ⟨c, p, mid.1, mid.2, r', hCore.symm, by rw [hMid.frame], hr', hCoreFinal⟩

/-- What the call makes of a consultation that is not under vote and whose block is known. -/
theorem consultation {c : CConsultation} (hc : call.view.getConsultation hash = some c)
    (hBlock : call.env.blockOf c.txblockhash = some pblockindex)
    (hOld : c.getLastState call.env.mapBlockIndex ≠ .accepted) :
    ∃ d v c', call.counted.getConsultation hash = some d ∧
      d.getLastState call.env.mapBlockIndex = c.getLastState call.env.mapBlockIndex ∧
      (d.recount call.context v pblockindex).mapState = c.mapState ∧
      v.consensus = call.counted.consensus ∧
      (∀ e : CConsultation, e.isSupported call.env v = e.isSupported call.env call.counted) ∧
      call.result.1.getConsultation hash = some c' ∧
      c'.mapState = ((d.recount call.context v pblockindex).voteTurn call.context v
        (d.getLastState call.env.mapBlockIndex)).mapState := by
  obtain ⟨run, hCounted⟩ := call.exists_run
  obtain ⟨d, hd, hCore⟩ := Map.core_of_some (call.counted_countsOnly.consultations hash).symm hc
  obtain ⟨v, hParams, hSupport, hTurns⟩ := run.consultations rfl call.solid rfl
  rw [hCounted] at hParams hSupport hTurns
  have hFinal := hTurns hash
  rw [hd] at hFinal
  obtain ⟨c', hc', hCore'⟩ := map_eq_some_iff.mp hFinal
  have hSame := CConsultation.eq_of_core hCore.symm
  have hState : d.getLastState call.env.mapBlockIndex = c.getLastState call.env.mapBlockIndex := by
    rw [hSame]
    rfl
  have hBlock' : call.context.env.blockOf d.txblockhash = some pblockindex := by
    rw [hSame]
    exact hBlock
  dsimp only at hCore'
  rw [CConsultation.turn_of_not_accepted hBlock' call.context_ends (hState ▸ hOld)] at hCore'
  refine ⟨d, v, c', hd, hState, ?_, hParams, hSupport, hc', ?_⟩
  · rw [CConsultation.recount_eq, hSame]
  · rw [CConsultation.eq_of_core hCore']
    rfl

end CycleEnd

/-! ## Windows that close -/

/-- A payment request of the base version or a later one, with a proposal, does not stay without a
state for more than `paymentRequestMaxVotingCycles` cycles. -/
def ClosesRequests (params : ConsensusParamsPos → Nat) : Prop :=
  ∀ (call : CycleEnd params) (hash : UInt256) (r : CPaymentRequest) (pblockindex : CBlockIndex),
    call.view.getPaymentRequest hash = some r → r.getLastState call.env.mapBlockIndex = .nil →
    CPaymentRequest.BASE_VERSION ≤ toU64 r.nVersion →
    (call.view.getProposal r.proposalhash).isSome = true →
    call.env.blockOf r.txblockhash = some pblockindex →
    params .paymentRequestMaxVotingCycles <
      elapsedCycles (params .votingCycleLength) call.pindex pblockindex →
    ∃ r', call.result.1.getPaymentRequest hash = some r' ∧
      r'.getLastState call.env.mapBlockIndex ≠ .nil

/-- A consultation does not stay without a state for `consultationMaxSupportCycles` cycles. -/
def ClosesConsultations (params : ConsensusParamsPos → Nat) : Prop :=
  ∀ (call : CycleEnd params) (hash : UInt256) (c : CConsultation) (pblockindex : CBlockIndex),
    call.view.getConsultation hash = some c → c.getLastState call.env.mapBlockIndex = .nil →
    call.env.blockOf c.txblockhash = some pblockindex →
    params .consultationMaxSupportCycles ≤
      elapsedCycles (params .votingCycleLength) call.pindex pblockindex →
    ∃ c', call.result.1.getConsultation hash = some c' ∧
      c'.getLastState call.env.mapBlockIndex ≠ .nil

/-- A supported consultation that is still supported by the votes of the cycle enters its reflection
once `consultationMinCycles` cycles have elapsed. -/
def MovesConsultations (params : ConsensusParamsPos → Nat) : Prop :=
  ∀ (call : CycleEnd params) (hash : UInt256) (c d : CConsultation) (pblockindex : CBlockIndex),
    call.view.getConsultation hash = some c → c.getLastState call.env.mapBlockIndex = .supported →
    call.counted.getConsultation hash = some d → d.isSupported call.env call.counted = true →
    call.env.blockOf c.txblockhash = some pblockindex →
    params .consultationMinCycles ≤
      elapsedCycles (params .votingCycleLength) call.pindex pblockindex →
    ∃ c', call.result.1.getConsultation hash = some c' ∧
      c'.getLastState call.env.mapBlockIndex = .reflection

section Turns

variable {params : ConsensusParamsPos → Nat}
  (hAdmitted : ∀ pos : ConsensusParamsPos, pos.type.admits (params pos) = true)
include hAdmitted

theorem cycles_le (pos : ConsensusParamsPos) (hNumber : pos.type = .typeNumber) :
    params pos ≤ 2 ^ 24 := by
  have hAdmits := hAdmitted pos
  rw [hNumber] at hAdmits
  simp only [ConsensusParamType.admits, Bool.and_eq_true, decide_eq_true_eq] at hAdmits
  exact hAdmits.2

/-- **Payment requests.**  The window closes when the cap, the cycle length, is not below the bound,
or when no height is large enough to pass the bound. -/
theorem closesRequests
    (hCap : params .paymentRequestMaxVotingCycles ≤ params .votingCycleLength ∨
      2 ^ 31 ≤ (params .paymentRequestMaxVotingCycles + 2) * params .votingCycleLength) :
    ClosesRequests params := by
  intro call hash r pblockindex hr hNil hVersion hProposal hBlock hElapsed
  have hCap := hCap.resolve_right (not_le.mpr (call.cycles_fit hElapsed))
  obtain ⟨proposal, hProposal⟩ := isSome_iff_exists.mp hProposal
  obtain ⟨c, p, mid, fund, r', hCore, hMid, hr', hFinal⟩ := call.request hr hBlock hProposal
  have hSame := CPaymentRequest.eq_of_core hCore
  have hNil' : c.getLastState call.context.env.mapBlockIndex = .nil := by
    rw [hSame]
    exact hNil
  have hLength := cycles_le hAdmitted .votingCycleLength rfl
  -- the stored cycles pass the bound
  have hCycle : params .paymentRequestMaxVotingCycles <
      (c.recount call.context pblockindex).nVotingCycle := by
    unfold CPaymentRequest.recount
    rw [hNil', call.context_length]
    refine StepContext.le_nVotingCycles ?_ call.height_fits (succ_le_succ hCap) (by omega)
    rw [call.context_length]
    exact hElapsed
  have hExpired : (c.recount call.context pblockindex).isExpired call.context.env
      (mid.setPaymentRequest hash (c.recount call.context pblockindex)) = true := by
    rw [CPaymentRequest.isExpired_nil]
    · exact (call.counted_values hMid _).trans_lt hCycle
    · rw [CPaymentRequest.recount_eq]
      exact hNil'
    · rw [CPaymentRequest.recount_eq, hSame]
      exact hVersion
  refine ⟨r', hr', ?_⟩
  show r'.mapState.getLastState _ ≠ .nil
  rw [CPaymentRequest.eq_of_core hFinal, CPaymentRequest.endTurn_expired hNil' hExpired,
    CPaymentRequest.recount_eq, hSame]
  show (r.mapState.setState call.pindex .expired).getLastState _ ≠ .nil
  rw [call.entered (call.below.paymentRequests hash r hr)]
  decide

/-- The stored cycles of a consultation reach a number that is not above the cap. -/
theorem CycleEnd.consultation_cycle (call : CycleEnd params) {c : CConsultation} {v : CStateView}
    {pblockindex : CBlockIndex} {pos : ConsensusParamsPos}
    (hOld : c.getLastState call.env.mapBlockIndex = .nil ∨
      c.getLastState call.env.mapBlockIndex = .supported)
    (hView : v.consensus = call.counted.consensus)
    (hElapsed : params pos ≤ elapsedCycles (params .votingCycleLength) call.pindex pblockindex)
    (hCap : params pos ≤ params .consultationMaxVotingCycles + 1 ∨
      2 ^ 31 ≤ (params pos + 1) * params .votingCycleLength) :
    getConsensusParameter call.env v pos ≤ (c.recount call.context v pblockindex).nVotingCycle := by
  have hVoting := cycles_le hAdmitted .consultationMaxVotingCycles rfl
  rw [CConsultation.recount_cycle hOld, call.context_env, call.counted_values hView,
    call.counted_values hView]
  refine StepContext.le_nVotingCycles ?_ call.height_fits
    (hCap.resolve_right (not_le.mpr (call.cycles_fit hElapsed))) (by omega)
  rw [call.context_length]
  exact hElapsed

/-- **Consultations waiting for support.**  The cap is one more than the number of voting cycles. -/
theorem closesConsultations
    (hCap : params .consultationMaxSupportCycles ≤ params .consultationMaxVotingCycles + 1 ∨
      2 ^ 31 ≤ (params .consultationMaxSupportCycles + 1) * params .votingCycleLength) :
    ClosesConsultations params := by
  intro call hash c pblockindex hc hNil hBlock hElapsed
  obtain ⟨d, v, c', -, hNil', hRecount, hView, -, hc', hFinal⟩ :=
    call.consultation hc hBlock (by rw [hNil]; decide)
  rw [hNil] at hNil'
  have hTurn := CConsultation.voteTurn_expired (s := call.context) v
    (c := d.recount call.context v pblockindex) (by rw [CConsultation.recount_eq]; exact hNil')
    (call.consultation_cycle hAdmitted (.inl hNil') hView hElapsed hCap)
  refine ⟨c', hc', ?_⟩
  show c'.mapState.getLastState _ ≠ .nil
  rw [hFinal, hNil', hTurn]
  show ((d.recount call.context v pblockindex).mapState.setState call.pindex .expired).getLastState
    _ ≠ .nil
  rw [hRecount, call.entered (call.below.consultations hash c hc)]
  decide

/-- **Supported consultations.** -/
theorem movesConsultations
    (hCap : params .consultationMinCycles ≤ params .consultationMaxVotingCycles + 1 ∨
      2 ^ 31 ≤ (params .consultationMinCycles + 1) * params .votingCycleLength) :
    MovesConsultations params := by
  intro call hash c d pblockindex hc hOld hd hSupport hBlock hElapsed
  obtain ⟨e, v, c', he, hOld', hRecount, hView, hSame, hc', hFinal⟩ :=
    call.consultation hc hBlock (by rw [hOld]; decide)
  cases he.symm.trans hd
  rw [hOld] at hOld'
  have hTurn := CConsultation.voteTurn_reflection (s := call.context) v
    (c := d.recount call.context v pblockindex) (by rw [CConsultation.recount_eq]; exact hOld')
    (by rw [CConsultation.recount_isSupported]; exact (hSame d).trans hSupport)
    (call.consultation_cycle hAdmitted (.inr hOld') hView hElapsed hCap)
  refine ⟨c', hc', ?_⟩
  show c'.mapState.getLastState _ = .reflection
  rw [hFinal, hOld', hTurn]
  show ((d.recount call.context v pblockindex).mapState.setState call.pindex
    .reflection).getLastState _ = .reflection
  rw [hRecount, call.entered (call.below.consultations hash c hc)]

end Turns

/-- A proposal without a state. -/
def windowProposal : CProposal :=
  { nullProposal with
    nAmount := 1, strDZeel := "a proposal", hash := 3, txblockhash := 1, nVersion := 2 }

/-- A payment request for it, on which nobody votes. -/
def windowRequest : CPaymentRequest :=
  { nullPaymentRequest with
    nAmount := 1, hash := 4, proposalhash := 3, txblockhash := 1, strDZeel := "a request",
    nVersion := 2 }

/-- A consultation without answers or, of the version with a range, with much support. -/
def windowConsultation (hash : UInt256) (nVersion : Nat) (mapState : StateMap) : CConsultation :=
  { CStateView.nullConsultation with
    mapState := mapState, hash := hash, txblockhash := 1, nVersion := nVersion,
    strDZeel := "a question", nSupport := 2 ^ 31 - 1, nMax := 1 }

/-- Objects of the first block.  Cycles have two blocks, and a request may wait for some of them. -/
def windowView (nMaxVotingCycles : Nat) : CStateView :=
  { CStateView.empty with
    proposals := (∅ : Map UInt256 CProposal).insert 3 windowProposal
    paymentRequests := (∅ : Map UInt256 CPaymentRequest).insert 4 windowRequest
    consultations := ((∅ : Map UInt256 CConsultation).insert 5 (windowConsultation 5 1 ∅)).insert 6
      (windowConsultation 6 3 (StateMap.setState (smallBlock 1) .supported ∅))
    consensus := shortCycles.insert ConsensusParamsPos.paymentRequestMaxVotingCycles.idx
      ⟨(∅ : Map Nat Nat).insert 1 nMaxVotingCycles⟩ }

/-- The end of the fifth cycle, with no vote recorded. -/
def windowStep (nMaxVotingCycles : Nat) : Option (CStateView × Fund × VoteCache) :=
  voteStep smallEnv .empty (smallBlock 9 :: smallChain 8) false ⟨0, 0⟩ (windowView nMaxVotingCycles)
    .init

/-- The call when requests may wait for two cycles. -/
def windowCall : CycleEnd (getConsensusParameter smallEnv (windowView 2)) where
  env := smallEnv
  votes := .empty
  pindex := smallBlock 9
  pprev := smallChain 8
  fund := ⟨0, 0⟩
  view := windowView 2
  cache := .init
  result := (windowStep 2).get (by decide +kernel)
  step := (some_get _).symm
  values _ := rfl
  ends := by decide +kernel
  activeFund := rfl
  activeConsultations := rfl
  solid := by decide +kernel
  below := by decide +kernel
  known := by decide +kernel
  height := by decide

end Electrum
