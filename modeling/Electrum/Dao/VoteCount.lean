import Electrum.Dao.Predicates

/-!
# Counting votes

`VoteStep` first counts the votes that the blocks of the current cycle recorded.  The counts
live in process-wide globals (`VoteCache`), which are rebuilt or extended by one block.
-/

namespace Electrum

/-! ## Recorded votes and the vote caches -/

/-- The votes each block recorded, by block hash (`vProposalVotes`, `vPaymentRequestVotes`,
`mapSupport` and `mapConsultationVotes`). -/
structure RecordedVotes where
  vProposalVotes : Map UInt256 (List (UInt256 × Int))
  vPaymentRequestVotes : Map UInt256 (List (UInt256 × Int))
  mapSupport : Map UInt256 (Map UInt256 Bool)
  mapConsultationVotes : Map UInt256 (Map UInt256 Nat)
  deriving DecidableEq

/-- No block has recorded a vote. -/
def RecordedVotes.empty : RecordedVotes := ⟨∅, ∅, ∅, ∅⟩

structure VoteCount where
  yes : Int
  no : Int
  abs : Int
  deriving DecidableEq, Repr

namespace VoteCount

def zero : VoteCount := ⟨0, 0, 0⟩

/-- Count one vote; any other value leaves the counts as they are. -/
def add (c : VoteCount) (vote : Int) : VoteCount :=
  if vote == VOTE_YES then { c with yes := c.yes + 1 }
  else if vote == VOTE_ABSTAIN then { c with abs := c.abs + 1 }
  else if vote == VOTE_NO then { c with no := c.no + 1 }
  else c

end VoteCount

/-- The globals that survive from one call of `VoteStep` to the next. -/
structure VoteCache where
  mapCacheProposalsToUpdate : Map UInt256 VoteCount
  mapCachePaymentRequestToUpdate : Map UInt256 VoteCount
  mapCacheSupportToUpdate : Map UInt256 Int
  mapCacheConsultationToUpdate : Map (UInt256 × Int) Int
  nCacheExclude : Int
  /-- `none` stands for the initial `uint256()` -/
  lastConsensusStateHash : Option (List Nat)
  deriving DecidableEq

namespace VoteCache

/-- All counts cleared, as at the start of a whole scan. -/
def cleared (lastConsensusStateHash : Option (List Nat)) : VoteCache :=
  ⟨∅, ∅, ∅, ∅, 0, lastConsensusStateHash⟩

/-- The globals at program start. -/
def init : VoteCache := cleared none

/-- The four maps are empty. -/
def noCounts (c : VoteCache) : Bool :=
  c.mapCacheProposalsToUpdate.isEmpty && c.mapCachePaymentRequestToUpdate.isEmpty &&
    c.mapCacheSupportToUpdate.isEmpty && c.mapCacheConsultationToUpdate.isEmpty

end VoteCache

/-! ## Counting the votes of one block -/

/-- The loop over the proposal or payment request votes of a block: the first entry of each
object counts, unless the object was already seen in this block. -/
def countVotes (votes : List (UInt256 × Int)) (s : Map UInt256 VoteCount × List UInt256) :
    Map UInt256 VoteCount × List UInt256 :=
  votes.foldl (fun s it =>
    if s.2.contains it.1 then s
    else (Map.upsert s.1 it.1 .zero (·.add it.2), it.1 :: s.2)) s

/-- The loop over the support votes of a block.  The keys of `supp` are distinct, so the
source's `mapSeenSupport` never skips one. -/
def countSupport (supp : Map UInt256 Bool) (m : Map UInt256 Int) : Map UInt256 Int :=
  supp.foldl (fun m hash fSupport => if fSupport then Map.upsert m hash 0 (· + 1) else m) m

/-- The entry a consultation vote counts for: an abstention on an answer goes to its parent. -/
def consultationVoteKey (view : CStateView) (hash : UInt256) (vote : Nat) :
    Option (UInt256 × Int) :=
  match view.getConsultationAnswer hash with
  | some answer => if toI64 vote == VOTE_ABSTAIN then some (answer.parent, toI64 vote)
      else some (hash, toI64 vote)
  | none => if view.consultations.contains hash then some (hash, toI64 vote) else none

/-- The loop over the consultation votes of a block; `seen` are the proposals and payment
requests already counted for it. -/
def countConsultationVotes (view : CStateView) (seen : List UInt256) (cVotes : Map UInt256 Nat)
    (m : Map (UInt256 × Int) Int) : Map (UInt256 × Int) Int :=
  cVotes.foldl (fun m hash vote =>
    if seen.contains hash then m
    else match consultationVoteKey view hash vote with
      | none => m
      | some key => Map.upsert m key 0 (· + 1)) m

/-- One turn of the scan over the blocks of the cycle. -/
def scanBlock (view : CStateView) (votes : RecordedVotes) (fCFund fDAOConsultations : Bool)
    (c : VoteCache) (pindexblock : CBlockIndex) : VoteCache :=
  if pindexblock.excluded then { c with nCacheExclude := c.nCacheExclude + 1 }
  else
    let hash := pindexblock.phashBlock
    let pVotes := if fCFund then votes.vProposalVotes[hash]?.getD [] else []
    let prVotes := if fCFund then votes.vPaymentRequestVotes[hash]?.getD [] else []
    let supp := if fDAOConsultations then votes.mapSupport[hash]?.getD ∅ else ∅
    let cVotes := if fDAOConsultations then votes.mapConsultationVotes[hash]?.getD ∅ else ∅
    let p := countVotes pVotes (c.mapCacheProposalsToUpdate, [])
    let r := countVotes prVotes (c.mapCachePaymentRequestToUpdate, p.2)
    { c with
      mapCacheProposalsToUpdate := p.1
      mapCachePaymentRequestToUpdate := r.1
      mapCacheSupportToUpdate := countSupport supp c.mapCacheSupportToUpdate
      mapCacheConsultationToUpdate :=
        countConsultationVotes view r.2 cVotes c.mapCacheConsultationToUpdate }

/-- The scan of the last `nBlocks` blocks, tip first. -/
def scanBlocks (view : CStateView) (votes : RecordedVotes) (fCFund fDAOConsultations : Bool)
    (nBlocks : Nat) (chain : Chain) (c : VoteCache) : VoteCache :=
  (chain.take nBlocks).foldl (scanBlock view votes fCFund fDAOConsultations) c

end Electrum
