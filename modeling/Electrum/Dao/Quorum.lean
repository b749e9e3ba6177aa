import Electrum.Dao.Metadata

/-!
# Quorums

`IsAccepted` and `IsRejected` of proposals and payment requests ask for a quorum of the cycle and
for a share of the votes.  For objects of `REDUCED_QUORUM_VERSION` the quorum is a constant of the
network, one for each half of the voting cycles.  The main network writes these constants as
quotients of integers, which are 0: one vote is enough, unless the share cannot be reached by one
vote or one vote is the quorum.

Main results:
* `quorum_of_share`, `share_without_quorum` — when a side with its share has a quorum behind it
* `reducedQuorum_iff` — the parameters for which the main network decides with a quorum
-/

namespace Electrum

open Binary

/-- The part of a cycle that has to vote on an object: two thirds of it in the first half of the
voting cycles and eight fifteenths later. -/
def reducedQuorum (nVotingCycle nMaxVotingCycles : Nat) : ℚ :=
  if 2 * nVotingCycle ≤ nMaxVotingCycles then 2 / 3 else 8 / 15

/-- The votes exceed the quorum among the blocks that are not excluded. -/
def HasQuorum (nVotingCycle nMaxVotingCycles nCycleLength : Nat) (exclude nTotalVotes : Int) :
    Prop :=
  reducedQuorum nVotingCycle nMaxVotingCycles * ((nCycleLength : ℚ) - exclude) < nTotalVotes

instance (nVotingCycle nMaxVotingCycles nCycleLength : Nat) (exclude nTotalVotes : Int) :
    Decidable (HasQuorum nVotingCycle nMaxVotingCycles nCycleLength exclude nTotalVotes) :=
  inferInstanceAs (Decidable (_ < _))

/-- Some vote is counted, and one of the two sides has its share of the votes. -/
def SideHasShare (nTotalVotes nVotesYes nVotesNo : Int) (minAccept minReject : Nat) : Prop :=
  0 < nTotalVotes ∧
    (shareBound nTotalVotes minAccept < f32 nVotesYes ∨
      shareBound nTotalVotes minReject < f32 nVotesNo)

/-- The values with which a quorum of zero does no harm: a cycle is one block, or each side needs
more than all votes.  In longer cycles the latter is not so, for the product of the share is
rounded. -/
def ShareNeedsQuorum (nCycleLength minAccept minReject : Nat) : Prop :=
  nCycleLength = 1 ∨ minAccept = 10000 ∧ minReject = 10000 ∧ nCycleLength < 40268

/-! ## Shares -/

/-- With a quorum of zero one vote is enough. -/
theorem votePasses_zero (nCycleLength : Nat) (exclude nTotalVotes nSide : Int) (minShare : Nat) :
    votePasses nCycleLength exclude 0 nTotalVotes nSide minShare = true ↔
      0 < nTotalVotes ∧ shareBound nTotalVotes minShare < f32 nSide := by
  rw [votePasses, quorumBound, mul_zero, f32_zero, Bool.and_eq_true, decide_eq_true_eq,
    decide_eq_true_eq, f32_pos_iff, Int.cast_pos]

theorem votePasses_zero_or (nCycleLength : Nat) (exclude nTotalVotes nVotesYes nVotesNo : Int)
    (minAccept minReject : Nat) :
    (votePasses nCycleLength exclude 0 nTotalVotes nVotesYes minAccept ||
        votePasses nCycleLength exclude 0 nTotalVotes nVotesNo minReject) = true ↔
      SideHasShare nTotalVotes nVotesYes nVotesNo minAccept minReject := by
  rw [Bool.or_eq_true, votePasses_zero, votePasses_zero, ← and_or_left]
  rfl

theorem f32_natCast {n : Nat} (h : n < 2 ^ 24) : f32 n = n := round_natCast h

/-- All of so few votes are computed without an error. -/
theorem shareBound_all {n : Nat} (h : n ≤ 26844) : shareBound n 10000 = n := by
  have hProduct : f32 (f32 n * f32 10000) = n * 10000 := by
    have hTen : f32 10000 = 10000 := by decide +kernel
    rw [f32_natCast (by omega), hTen]
    rcases h.eq_or_lt with rfl | hSmall
    · decide +kernel
    · -- sixteen divides the product, and what is left has 24 bits
      have hFits := round_of_fits (p := 24) (n := n * 625) 4 (by omega)
      rw [show n * 625 * 2 ^ 4 = n * 10000 by omega] at hFits
      push_cast at hFits
      exact hFits
  unfold shareBound
  push_cast
  rw [hProduct, mul_div_cancel_right₀ _ (by norm_num)]
  exact round_natCast (by omega)

/-- One vote is more than any part of itself. -/
theorem shareBound_one {value : Nat} (h : value < 10000) : shareBound 1 value < f32 1 := by
  have hOne : f32 1 = 1 := by decide +kernel
  have hValue : f32 value = value := f32_natCast (by omega)
  have hCast : (value : ℚ) ≤ 9999 := by exact_mod_cast Nat.le_of_lt_succ h
  have hRound := round_le_add (p := 53) (q := (value : ℚ) / 10000) (by positivity) (by linarith)
  unfold shareBound
  push_cast
  rw [hOne, one_mul, hValue, hValue]
  unfold f64
  have hBit : (1 : ℚ) / 2 ^ 53 < 1 / 10000 := by norm_num
  linarith

/-! ## Quorums -/

theorem reducedQuorum_bounds (nVotingCycle nMaxVotingCycles : Nat) :
    0 ≤ reducedQuorum nVotingCycle nMaxVotingCycles ∧
      reducedQuorum nVotingCycle nMaxVotingCycles ≤ 2 / 3 := by
  unfold reducedQuorum
  split <;> norm_num

section Votes

variable {nVotingCycle nMaxVotingCycles nCycleLength minAccept minReject : Nat}
  {exclude nTotalVotes nVotesYes nVotesNo : Int}

/-- Votes that miss the quorum are no more than two thirds of the cycle. -/
theorem votes_of_not_quorum (hExclude : 0 ≤ exclude)
    (h : ¬ HasQuorum nVotingCycle nMaxVotingCycles nCycleLength exclude nTotalVotes) :
    (nTotalVotes : ℚ) ≤ 2 / 3 * nCycleLength := by
  obtain ⟨hLower, hUpper⟩ := reducedQuorum_bounds nVotingCycle nMaxVotingCycles
  have hCast : (0 : ℚ) ≤ exclude := by exact_mod_cast hExclude
  calc (nTotalVotes : ℚ)
      ≤ reducedQuorum nVotingCycle nMaxVotingCycles * (nCycleLength - exclude) := not_lt.mp h
    _ ≤ reducedQuorum nVotingCycle nMaxVotingCycles * nCycleLength :=
      mul_le_mul_of_nonneg_left (by linarith) hLower
    _ ≤ 2 / 3 * nCycleLength := mul_le_mul_of_nonneg_right hUpper (Nat.cast_nonneg _)

/-- No side has more than all votes, as long as these are few. -/
theorem not_share_all {nSide : Int} (hSide : 0 ≤ nSide) (hTotal : nSide ≤ nTotalVotes)
    (hFew : nTotalVotes ≤ 26844) : ¬ shareBound nTotalVotes 10000 < f32 nSide := by
  lift nSide to Nat using hSide
  lift nTotalVotes to Nat using (by omega)
  rw [shareBound_all (by omega), Int.cast_natCast, f32_natCast (by omega), not_lt]
  exact_mod_cast hTotal

/-- With these values a side that has its share has a quorum. -/
theorem quorum_of_share (hNeeds : ShareNeedsQuorum nCycleLength minAccept minReject)
    (hExclude : 0 ≤ exclude) (hYes : 0 ≤ nVotesYes ∧ nVotesYes ≤ nTotalVotes)
    (hNo : 0 ≤ nVotesNo ∧ nVotesNo ≤ nTotalVotes)
    (hShare : SideHasShare nTotalVotes nVotesYes nVotesNo minAccept minReject) :
    HasQuorum nVotingCycle nMaxVotingCycles nCycleLength exclude nTotalVotes := by
  by_contra hMissed
  have hVotes := votes_of_not_quorum hExclude hMissed
  obtain ⟨hSome, hSide⟩ := hShare
  rcases hNeeds with rfl | ⟨rfl, rfl, hLength⟩
  · have hCast : (1 : ℚ) ≤ nTotalVotes := by exact_mod_cast hSome
    push_cast at hVotes
    linarith
  · have hFew : nTotalVotes ≤ 26844 := by
      have hCast : (nCycleLength : ℚ) ≤ 40267 := by exact_mod_cast Nat.le_of_lt_succ hLength
      have hBelow : (nTotalVotes : ℚ) < 26845 := by linarith
      exact Int.le_of_lt_add_one (by exact_mod_cast hBelow)
    rcases hSide with hSide | hSide
    · exact not_share_all hYes.1 hYes.2 hFew hSide
    · exact not_share_all hNo.1 hNo.2 hFew hSide

/-- **A share without a quorum.**  For all other values some votes, all of one side, decide without
a quorum in the first voting cycle. -/
theorem share_without_quorum (hLength : 1 ≤ nCycleLength) (hAccept : minAccept ≤ 10000)
    (hReject : minReject ≤ 10000) (hNot : ¬ ShareNeedsQuorum nCycleLength minAccept minReject) :
    ∃ nYes nNo : Nat, SideHasShare (nYes + nNo) nYes nNo minAccept minReject ∧
      ∀ nMaxVotingCycles, ¬ HasQuorum 0 nMaxVotingCycles nCycleLength 0 (nYes + nNo) := by
  obtain ⟨hLong, hShares⟩ := not_or.mp hNot
  have hMissed {n : Nat} (h : (n : ℚ) ≤ 2 / 3 * nCycleLength) (nMaxVotingCycles : Nat) :
      ¬ HasQuorum 0 nMaxVotingCycles nCycleLength 0 n := by
    unfold HasQuorum reducedQuorum
    simpa using h
  have hTwo : (2 : ℚ) ≤ nCycleLength := by exact_mod_cast (by omega : 2 ≤ nCycleLength)
  by_cases hYes : minAccept < 10000
  · refine ⟨1, 0, ⟨by decide, .inl (shareBound_one hYes)⟩, hMissed (n := 1) ?_⟩
    push_cast
    linarith
  by_cases hNo : minReject < 10000
  · refine ⟨0, 1, ⟨by decide, .inr (shareBound_one hNo)⟩, hMissed (n := 1) ?_⟩
    push_cast
    linarith
  · -- the first number of votes whose product is rounded down
    obtain rfl : minAccept = 10000 := by omega
    obtain rfl : minReject = 10000 := by omega
    have hCycle : (40268 : ℚ) ≤ nCycleLength := by
      exact_mod_cast not_lt.mp fun h => hShares ⟨rfl, rfl, h⟩
    refine ⟨26845, 0, ⟨by decide, .inl (by decide +kernel)⟩, hMissed (n := 26845) ?_⟩
    push_cast
    linarith

end Votes

/-! ## The main network -/

/-- Votes and excluded blocks are counted up from zero. -/
def CProposal.Counts (p : CProposal) : Prop :=
  0 ≤ p.nVotesYes ∧ 0 ≤ p.nVotesNo ∧ 0 ≤ p.nVotesAbs ∧ 0 ≤ p.nExclude

def CPaymentRequest.Counts (r : CPaymentRequest) : Prop :=
  0 ≤ r.nVotesYes ∧ 0 ≤ r.nVotesNo ∧ 0 ≤ r.nVotesAbs ∧ 0 ≤ r.nExclude

/-- A proposal of the reduced version in its first voting cycle, with some votes on it. -/
def reducedProposal (nVotesYes nVotesNo : Int) : CProposal :=
  { nullProposal with
    nAmount := 100, nVotesYes := nVotesYes, nVotesNo := nVotesNo, hash := 5, nVersion := 4 }

/-- A payment request of the reduced version in its first voting cycle, with some votes on it. -/
def reducedRequest (nVotesYes nVotesNo : Int) : CPaymentRequest :=
  { nullPaymentRequest with
    nAmount := 100, hash := 6, proposalhash := 5, nVotesYes := nVotesYes, nVotesNo := nVotesNo,
    nVersion := 4 }

theorem reducedProposal_votes (nVotesYes nVotesNo : Int) :
    versionHas (reducedProposal nVotesYes nVotesNo).nVersion CProposal.REDUCED_QUORUM_VERSION =
      true ∧
      (reducedProposal nVotesYes nVotesNo).nTotalVotes = nVotesYes + nVotesNo ∧
      (reducedProposal nVotesYes nVotesNo).exclude = 0 := by
  have hAbstain : versionHas 4 CProposal.ABSTAIN_VOTE_VERSION = false := by decide
  have hExclude : versionHas 4 CProposal.EXCLUDE_VERSION = false := by decide
  have hReduced : versionHas 4 CProposal.REDUCED_QUORUM_VERSION = true := by decide
  simp [CProposal.nTotalVotes, CProposal.exclude, reducedProposal, hReduced,
    hAbstain, hExclude]

theorem reducedRequest_votes (nVotesYes nVotesNo : Int) :
    versionHas (reducedRequest nVotesYes nVotesNo).nVersion CPaymentRequest.REDUCED_QUORUM_VERSION =
      true ∧
      (reducedRequest nVotesYes nVotesNo).nTotalVotes = nVotesYes + nVotesNo ∧
      (reducedRequest nVotesYes nVotesNo).exclude = 0 := by
  have hAbstain : versionHas 4 CPaymentRequest.ABSTAIN_VOTE_VERSION = false := by decide
  have hExclude : versionHas 4 CPaymentRequest.EXCLUDE_VERSION = false := by decide
  have hReduced : versionHas 4 CPaymentRequest.REDUCED_QUORUM_VERSION = true := by decide
  simp [CPaymentRequest.nTotalVotes, CPaymentRequest.exclude, reducedRequest, hReduced,
    hAbstain, hExclude]

section MainNetwork

variable {env : Env} (hMain : env.params = mainParams)
include hMain

theorem CProposal.nMinimumQuorum_reduced (view : CStateView) {p : CProposal}
    (hReduced : versionHas p.nVersion CProposal.REDUCED_QUORUM_VERSION = true) :
    p.nMinimumQuorum env view = 0 := by
  rw [nMinimumQuorum, if_pos hReduced, hMain]
  exact ite_self _

theorem CPaymentRequest.nMinimumQuorum_reduced (view : CStateView) {r : CPaymentRequest}
    (hReduced : versionHas r.nVersion CPaymentRequest.REDUCED_QUORUM_VERSION = true) :
    r.nMinimumQuorum env view = 0 := by
  rw [nMinimumQuorum, if_pos hReduced, hMain]
  exact ite_self _

/-- `IsAccepted` and `IsRejected` ask for the share of a side only. -/
theorem CProposal.decided_reduced (view : CStateView) {p : CProposal}
    (hReduced : versionHas p.nVersion CProposal.REDUCED_QUORUM_VERSION = true) :
    (p.isAccepted env view || p.isRejected env view) = true ↔
      SideHasShare p.nTotalVotes p.nVotesYes p.nVotesNo
        (getConsensusParameter env view .proposalMinAccept)
        (getConsensusParameter env view .proposalMinReject) := by
  rw [isAccepted, isRejected, nMinimumQuorum_reduced hMain view hReduced, votePasses_zero_or]

theorem CPaymentRequest.decided_reduced (view : CStateView) {r : CPaymentRequest}
    (hReduced : versionHas r.nVersion CPaymentRequest.REDUCED_QUORUM_VERSION = true) :
    (r.isAccepted env view || r.isRejected env view) = true ↔
      SideHasShare r.nTotalVotes r.nVotesYes r.nVotesNo
        (getConsensusParameter env view .paymentRequestMinAccept)
        (getConsensusParameter env view .paymentRequestMinReject) := by
  rw [isAccepted, isRejected, nMinimumQuorum_reduced hMain view hReduced, votePasses_zero_or]

/-- **When decisions have a quorum.**  With admissible values of the parameters, `IsAccepted` and
`IsRejected` of the main network decide all objects of the reduced version with a quorum exactly
when a cycle is a single block, or each side needs all votes of a cycle that is not too long. -/
theorem reducedQuorum_iff (view : CStateView) (hAdmitted : ∀ pos : ConsensusParamsPos,
      pos.type.admits (getConsensusParameter env view pos) = true) :
    ((∀ p : CProposal, versionHas p.nVersion CProposal.REDUCED_QUORUM_VERSION = true → p.Counts →
        (p.isAccepted env view || p.isRejected env view) = true →
        HasQuorum p.nVotingCycle (getConsensusParameter env view .proposalMaxVotingCycles)
          (getConsensusParameter env view .votingCycleLength) p.exclude p.nTotalVotes) ↔
      ShareNeedsQuorum (getConsensusParameter env view .votingCycleLength)
        (getConsensusParameter env view .proposalMinAccept)
        (getConsensusParameter env view .proposalMinReject)) ∧
    ((∀ r : CPaymentRequest, versionHas r.nVersion CPaymentRequest.REDUCED_QUORUM_VERSION = true →
        r.Counts → (r.isAccepted env view || r.isRejected env view) = true →
        HasQuorum r.nVotingCycle (getConsensusParameter env view .paymentRequestMaxVotingCycles)
          (getConsensusParameter env view .votingCycleLength) r.exclude r.nTotalVotes) ↔
      ShareNeedsQuorum (getConsensusParameter env view .votingCycleLength)
        (getConsensusParameter env view .paymentRequestMinAccept)
        (getConsensusParameter env view .paymentRequestMinReject)) := by
  have hLength : 1 ≤ getConsensusParameter env view .votingCycleLength := by
    have hAdmits := hAdmitted .votingCycleLength
    simp only [ConsensusParamsPos.type, ConsensusParamType.admits, Bool.and_eq_true,
      decide_eq_true_eq] at hAdmits
    exact hAdmits.1
  have hPercent {pos : ConsensusParamsPos} (hType : pos.type = .typePercent) :
      getConsensusParameter env view pos ≤ 10000 := by
    have hAdmits := hAdmitted pos
    rw [hType] at hAdmits
    exact of_decide_eq_true hAdmits
  constructor
  · constructor
    · intro hDecides
      by_contra hNot
      obtain ⟨nYes, nNo, hShare, hMissed⟩ :=
        share_without_quorum hLength (hPercent rfl) (hPercent rfl) hNot
      obtain ⟨hReduced, hTotal, hExclude⟩ := reducedProposal_votes nYes nNo
      refine hMissed (getConsensusParameter env view .proposalMaxVotingCycles) ?_
      rw [← hTotal, ← hExclude]
      refine hDecides (reducedProposal nYes nNo) hReduced ⟨?_, ?_, le_rfl, le_rfl⟩ ?_
      · exact Int.natCast_nonneg nYes
      · exact Int.natCast_nonneg nNo
      · rw [CProposal.decided_reduced hMain view hReduced, hTotal]
        exact hShare
    · rintro hNeeds p hReduced ⟨hYes, hNo, hAbs, hExclude⟩ hDecided
      refine quorum_of_share hNeeds ?_ ⟨hYes, ?_⟩ ⟨hNo, ?_⟩
        ((CProposal.decided_reduced hMain view hReduced).mp hDecided)
      · unfold CProposal.exclude
        split <;> omega
      · unfold CProposal.nTotalVotes
        split <;> omega
      · unfold CProposal.nTotalVotes
        split <;> omega
  · constructor
    · intro hDecides
      by_contra hNot
      obtain ⟨nYes, nNo, hShare, hMissed⟩ :=
        share_without_quorum hLength (hPercent rfl) (hPercent rfl) hNot
      obtain ⟨hReduced, hTotal, hExclude⟩ := reducedRequest_votes nYes nNo
      refine hMissed (getConsensusParameter env view .paymentRequestMaxVotingCycles) ?_
      rw [← hTotal, ← hExclude]
      refine hDecides (reducedRequest nYes nNo) hReduced ⟨?_, ?_, le_rfl, le_rfl⟩ ?_
      · exact Int.natCast_nonneg nYes
      · exact Int.natCast_nonneg nNo
      · rw [CPaymentRequest.decided_reduced hMain view hReduced, hTotal]
        exact hShare
    · rintro hNeeds r hReduced ⟨hYes, hNo, hAbs, hExclude⟩ hDecided
      refine quorum_of_share hNeeds ?_ ⟨hYes, ?_⟩ ⟨hNo, ?_⟩
        ((CPaymentRequest.decided_reduced hMain view hReduced).mp hDecided)
      · unfold CPaymentRequest.exclude
        split <;> omega
      · unfold CPaymentRequest.nTotalVotes
        split <;> omega
      · unfold CPaymentRequest.nTotalVotes
        split <;> omega

end MainNetwork

/-- The main network, with no block known. -/
def mainEnv : Env := ⟨mainParams, ∅, fun _ _ => true⟩

/-- A network that voted for cycles of one block. -/
def singleBlocks : CStateView :=
  { CStateView.empty with
    consensus := (∅ : Map Nat CConsensusParameter).insert ConsensusParamsPos.votingCycleLength.idx
      ⟨(∅ : Map Nat Nat).insert 1 1⟩ }

/-- The one vote of a cycle of one block is its quorum. -/
theorem reducedQuorum_made : (reducedProposal 1 0).isAccepted mainEnv singleBlocks = true ∧
    HasQuorum (reducedProposal 1 0).nVotingCycle
      (getConsensusParameter mainEnv singleBlocks .proposalMaxVotingCycles)
      (getConsensusParameter mainEnv singleBlocks .votingCycleLength) (reducedProposal 1 0).exclude
      (reducedProposal 1 0).nTotalVotes := by
  have hAdmitted : ∀ pos : ConsensusParamsPos,
      pos.type.admits (getConsensusParameter mainEnv singleBlocks pos) = true := by
    intro pos
    cases pos <;> decide +kernel
  have hSingle : getConsensusParameter mainEnv singleBlocks .votingCycleLength = 1 := by
    decide +kernel
  have hAccepted : (reducedProposal 1 0).isAccepted mainEnv singleBlocks = true := by
    decide +kernel
  refine ⟨hAccepted, (reducedQuorum_iff (show mainEnv.params = mainParams from rfl) singleBlocks
    hAdmitted).1.mpr (.inl hSingle) (reducedProposal 1 0) (by decide)
    ⟨by decide, by decide, by decide, by decide⟩ ?_⟩
  rw [hAccepted]
  rfl

/-- **One vote decides.**  A cycle of the main network has 20160 blocks. -/
theorem reducedQuorum_missed :
    versionHas (reducedProposal 1 0).nVersion CProposal.REDUCED_QUORUM_VERSION = true ∧
      (reducedProposal 1 0).isAccepted mainEnv .empty = true ∧
      ¬ HasQuorum (reducedProposal 1 0).nVotingCycle
        (getConsensusParameter mainEnv .empty .proposalMaxVotingCycles)
        (getConsensusParameter mainEnv .empty .votingCycleLength) (reducedProposal 1 0).exclude
        (reducedProposal 1 0).nTotalVotes := by
  decide +kernel

end Electrum
