import Electrum.Lib.Float
import Electrum.Dao.View

/-!
# Predicates of the DAO objects

`CanVote`, `IsAccepted`, `IsRejected`, `IsExpired` and their kin.  The comparisons are the
`float` and `double` comparisons of the source.
-/

namespace Electrum

open Binary

/-- `float x = value / 10000.0`. -/
def fraction (value : Nat) : ℚ := f32 (f64 (f64 value / 10000))

/-- `count > (nCycleLength - exclude) * nMinimumQuorum`, the difference in `uint64_t` and the
product in `float`. -/
def quorumBound (nCycleLength : Nat) (exclude : Int) (nMinimumQuorum : ℚ) : ℚ :=
  f32 (f32 (sub64 nCycleLength (toU64 exclude)) * nMinimumQuorum)

/-- `(float)(nTotalVotes) * value / 10000.0`. -/
def shareBound (nTotalVotes : Int) (value : Nat) : ℚ :=
  f64 (f32 (f32 nTotalVotes * f32 value) / 10000)

/-- The comparison made by `IsAccepted` and `IsRejected` of proposals and payment requests:
enough votes in total, and a large enough share of them of one side. -/
def votePasses (nCycleLength : Nat) (exclude : Int) (nMinimumQuorum : ℚ) (nTotalVotes : Int)
    (nSide : Int) (minShare : Nat) : Bool :=
  decide (quorumBound nCycleLength exclude nMinimumQuorum < f32 nTotalVotes) &&
    decide (shareBound nTotalVotes minShare < f32 nSide)

namespace CPaymentRequest

variable (env : Env) (view : CStateView) (r : CPaymentRequest)

def nTotalVotes : Int :=
  r.nVotesYes + r.nVotesNo + if versionHas r.nVersion ABSTAIN_VOTE_VERSION then r.nVotesAbs else 0

def exclude : Int := if versionHas r.nVersion EXCLUDE_VERSION then r.nExclude else 0

def nMinimumQuorum : ℚ :=
  if versionHas r.nVersion REDUCED_QUORUM_VERSION then
    if getConsensusParameter env view .paymentRequestMaxVotingCycles / 2 < r.nVotingCycle then
      env.params.nMinimumQuorumSecondHalf
    else env.params.nMinimumQuorumFirstHalf
  else fraction (getConsensusParameter env view .paymentRequestMinQuorum)

def isAccepted : Bool :=
  votePasses (getConsensusParameter env view .votingCycleLength) r.exclude
    (r.nMinimumQuorum env view) r.nTotalVotes r.nVotesYes
    (getConsensusParameter env view .paymentRequestMinAccept)

def isRejected : Bool :=
  votePasses (getConsensusParameter env view .votingCycleLength) r.exclude
    (r.nMinimumQuorum env view) r.nTotalVotes r.nVotesNo
    (getConsensusParameter env view .paymentRequestMinReject)

def exceededMaxVotingCycles : Bool :=
  decide (getConsensusParameter env view .paymentRequestMaxVotingCycles < r.nVotingCycle)

def isExpired : Bool :=
  if BASE_VERSION ≤ toU64 r.nVersion then
    let fLastState := r.getLastState env.mapBlockIndex
    r.exceededMaxVotingCycles env view && fLastState != .accepted && fLastState != .rejected &&
      fLastState != .paid
  else false

end CPaymentRequest

namespace CProposal

variable (env : Env) (view : CStateView) (p : CProposal)

def nTotalVotes : Int :=
  p.nVotesYes + p.nVotesNo + if versionHas p.nVersion ABSTAIN_VOTE_VERSION then p.nVotesAbs else 0

def exclude : Int := if versionHas p.nVersion EXCLUDE_VERSION then p.nExclude else 0

def nMinimumQuorum : ℚ :=
  if versionHas p.nVersion REDUCED_QUORUM_VERSION then
    if getConsensusParameter env view .proposalMaxVotingCycles / 2 < p.nVotingCycle then
      env.params.nMinimumQuorumSecondHalf
    else env.params.nMinimumQuorumFirstHalf
  else fraction (getConsensusParameter env view .proposalMinQuorum)

def isAccepted : Bool :=
  votePasses (getConsensusParameter env view .votingCycleLength) p.exclude
    (p.nMinimumQuorum env view) p.nTotalVotes p.nVotesYes
    (getConsensusParameter env view .proposalMinAccept)

def isRejected : Bool :=
  votePasses (getConsensusParameter env view .votingCycleLength) p.exclude
    (p.nMinimumQuorum env view) p.nTotalVotes p.nVotesNo
    (getConsensusParameter env view .proposalMinReject)

def canVote : Bool := p.getLastState env.mapBlockIndex == .nil

def exceededMaxVotingCycles : Bool :=
  decide (getConsensusParameter env view .proposalMaxVotingCycles < p.nVotingCycle)

def isExpired (currentTime : Nat) : Bool :=
  if versionHas p.nVersion BASE_VERSION then
    let fLastState := p.getLastState env.mapBlockIndex
    match fLastState, p.mapState.getLastStateBlockIndexForState env.mapBlockIndex .accepted with
    | .accepted, some pblockindex => decide (pblockindex.nTime + p.nDeadline < currentTime)
    | _, _ =>
      fLastState == .expired || fLastState == .pendingVotingPreq ||
        (p.exceededMaxVotingCycles env view && fLastState == .nil)
  else decide (p.nDeadline < currentTime)

/-- The requests of this proposal whose amount `GetAvailable` subtracts. -/
def countsAgainst (fIncludeRequests : Bool) (r : CPaymentRequest) : Bool :=
  let fLastState := r.getLastState env.mapBlockIndex
  r.proposalhash == p.hash &&
    ((fIncludeRequests && fLastState != .rejected && fLastState != .expired) ||
      (!fIncludeRequests && (fLastState == .accepted || fLastState == .paid)))

def getAvailable (fIncludeRequests : Bool) : Int :=
  view.paymentRequests.toList.foldl (fun initial it =>
    if p.countsAgainst env fIncludeRequests it.2 then initial - it.2.nAmount else initial)
    p.nAmount

end CProposal

/-- `CPaymentRequest::CanVote`. -/
def CPaymentRequest.canVote (env : Env) (view : CStateView) (r : CPaymentRequest) : Bool :=
  match view.getProposal r.proposalhash with
  | none => false
  | some proposal =>
    let fProposalLastState := proposal.getLastState env.mapBlockIndex
    decide (r.nAmount ≤ proposal.getAvailable env view false) &&
      r.getLastState env.mapBlockIndex == .nil &&
      (fProposalLastState == .accepted || fProposalLastState == .pendingVotingPreq)

/-- `CProposal::HasPendingPaymentRequests`. -/
def CProposal.hasPendingPaymentRequests (env : Env) (view : CStateView) (p : CProposal) : Bool :=
  view.paymentRequests.toList.any fun it => it.2.proposalhash == p.hash && it.2.canVote env view

namespace CConsultationAnswer

variable (env : Env) (view : CStateView) (a : CConsultationAnswer)

def exclude : Int := if versionHas a.nVersion EXCLUDE_VERSION then a.nExclude else 0

def isSupported : Bool :=
  decide (f32 (f32 (getConsensusParameter env view .votingCycleLength) *
    fraction (getConsensusParameter env view .consultationAnswerMinSupport)) ≤ f32 a.nSupport)

/-- Neither the answer's state nor its parent's is looked at. -/
def isConsensusAccepted : Bool :=
  decide (quorumBound (getConsensusParameter env view .votingCycleLength) a.exclude
    (fraction env.params.nConsensusChangeMinAccept) ≤ f32 a.nVotes)

def canBeSupported : Bool :=
  match view.getConsultation a.parent with
  | none => false
  | some consultation =>
    let fConsultationState := consultation.getLastState env.mapBlockIndex
    (fConsultationState == .nil || fConsultationState == .supported) &&
      a.getLastState env.mapBlockIndex == .nil

def canBeVoted : Bool :=
  match view.getConsultation a.parent with
  | none => false
  | some consultation =>
    !consultation.isRange && a.getLastState env.mapBlockIndex == .accepted &&
      consultation.getLastState env.mapBlockIndex == .accepted

end CConsultationAnswer

namespace CConsultation

variable (env : Env) (view : CStateView) (c : CConsultation)

/-- The supported answers that a consultation lists. -/
def supportedAnswers : List UInt256 :=
  c.vAnswers.filter fun it =>
    match view.getConsultationAnswer it with
    | none => false
    | some answer => answer.parent == c.hash && answer.isSupported env view

def haveEnoughAnswers : Bool :=
  c.isRange ||
    decide ((if c.isAboutConsensusParameter then 1 else 2) ≤ (c.supportedAnswers env view).length)

def isSupported : Bool :=
  if c.isRange then
    decide (f32 (f32 (getConsensusParameter env view .votingCycleLength) *
      fraction (getConsensusParameter env view .consultationMinSupport)) < f32 c.nSupport)
  else c.haveEnoughAnswers env view

def canMoveInReflection : Bool :=
  decide (getConsensusParameter env view .consultationMinCycles ≤ c.nVotingCycle)

def exceededMaxVotingCycles : Bool :=
  decide (getConsensusParameter env view .consultationMaxSupportCycles ≤ c.nVotingCycle)

def isFinished : Bool :=
  let fState := c.getLastState env.mapBlockIndex
  fState == .expired || fState == .passed

def isExpired (pindex : CBlockIndex) : Bool :=
  let fState := c.getLastState env.mapBlockIndex
  let nCycleLength := getConsensusParameter env view .votingCycleLength
  match fState, c.mapState.getLastStateBlockIndexForState env.mapBlockIndex .accepted with
  | .accepted, some pblockindex =>
    decide (getConsensusParameter env view .consultationMaxVotingCycles ≤
      sub64 (pindex.nHeight / nCycleLength) (pblockindex.nHeight / nCycleLength))
  | _, _ => fState == .expired || (c.exceededMaxVotingCycles env view && fState == .nil)

def isReflectionOver (pindex : CBlockIndex) : Bool :=
  let nVotingLength := getConsensusParameter env view .votingCycleLength
  match c.mapState.getLastStateBlockIndexForState env.mapBlockIndex .reflection with
  | none => false
  | some pblockindex =>
    decide (getConsensusParameter env view .consultationReflectionLength ≤
      sub32 (pindex.nHeight / nVotingLength) (pblockindex.nHeight / nVotingLength))

def canBeSupported : Bool := c.getLastState env.mapBlockIndex == .nil && c.isRange

def canBeVoted (vote : Int) : Bool :=
  c.getLastState env.mapBlockIndex == .accepted && (c.isRange || vote == VOTE_ABSTAIN)

def canHaveAnswers : Bool :=
  let fState := c.getLastState env.mapBlockIndex
  (fState == .nil || fState == .supported) && !c.isRange

def canHaveNewAnswers : Bool :=
  c.canHaveAnswers env && versionHas c.nVersion MORE_ANSWERS_VERSION

/-- The comparisons are between `uint64_t` values. -/
def isValidVote (vote : Int) : Bool :=
  vote == VOTE_ABSTAIN || (c.isRange && decide (c.nMin ≤ toU64 vote) && decide (toU64 vote ≤ c.nMax))

end CConsultation

end Electrum
