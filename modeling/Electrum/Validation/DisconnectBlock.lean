import Electrum.Coins.Undo

/-!
# DisconnectBlock

`DisconnectBlock` takes a block back from the view.  There is no journal for governance: the
objects of the block are removed by the hashes of its transactions, counters are decremented by
the votes that the block recorded, the voters' lists and the parameters lose their entries at
the block's height.
-/

namespace Electrum

/-! ## Objects -/

/-- The object of a governance transaction is removed. -/
def removeObject (node : Node) (blockhash : UInt256) (fCFund fDAOConsultations : Bool)
    (tx : CTransaction) (view : CStateView) : CStateView :=
  if fCFund && tx.nVersion == CTransaction.PROPOSAL_VERSION then view.removeProposal tx.hash
  else if fCFund && tx.nVersion == CTransaction.PAYMENT_REQUEST_VERSION then
    view.removePaymentRequest tx.hash
  else if fDAOConsultations && tx.nVersion == CTransaction.CONSULTATION_VERSION then
    view.removeConsultation tx.hash
  else if fDAOConsultations && tx.nVersion == CTransaction.ANSWER_VERSION then
    match txToConsultationAnswer node tx blockhash with
    | some answer => view.removeConsultationAnswer answer.hash
    | none => view
  else view

/-! ## Counters -/

/-- `max(n - 1, 0)`. -/
def uncount (n : Int) : Int := max (n - 1) 0

def CProposal.uncountVote (p : CProposal) (vote : Int) : CProposal :=
  if vote == VOTE_YES then { p with nVotesYes := uncount p.nVotesYes }
  else if vote == VOTE_ABSTAIN then { p with nVotesAbs := uncount p.nVotesAbs }
  else if vote == VOTE_NO then { p with nVotesNo := uncount p.nVotesNo }
  else p

def CPaymentRequest.uncountVote (r : CPaymentRequest) (vote : Int) : CPaymentRequest :=
  if vote == VOTE_YES then { r with nVotesYes := uncount r.nVotesYes }
  else if vote == VOTE_ABSTAIN then { r with nVotesAbs := uncount r.nVotesAbs }
  else if vote == VOTE_NO then { r with nVotesNo := uncount r.nVotesNo }
  else r

/-- One proposal vote of the block; the first vote for each proposal counts. -/
def undoProposalVote (st : CStateView × List UInt256) (it : UInt256 × Int) :
    CStateView × List UInt256 :=
  match st.1.getProposal it.1 with
  | none => st
  | some p =>
    if st.2.contains p.hash then st
    else (st.1.setProposal it.1 (p.uncountVote it.2), it.1 :: st.2)

def undoPaymentRequestVote (st : CStateView × List UInt256) (it : UInt256 × Int) :
    CStateView × List UInt256 :=
  match st.1.getPaymentRequest it.1 with
  | none => st
  | some r =>
    if st.2.contains r.hash then st
    else (st.1.setPaymentRequest it.1 (r.uncountVote it.2), it.1 :: st.2)

/-- One support vote of the block. -/
def undoSupport (st : CStateView × List UInt256) (hash : UInt256) : CStateView × List UInt256 :=
  if st.2.contains hash then st
  else match st.1.getConsultation hash with
    | some c => (st.1.setConsultation hash { c with nSupport := uncount c.nSupport }, hash :: st.2)
    | none =>
      match st.1.getConsultationAnswer hash with
      | some a =>
        (st.1.setConsultationAnswer hash { a with nSupport := uncount a.nSupport }, hash :: st.2)
      | none => st

/-- `mapVotes` with one vote less for a value; the subtraction is one of `uint64_t`. -/
def uncountValue (mapVotes : Map Nat Nat) (vote : Nat) : Map Nat Nat :=
  let count := mapVotes[vote]?.getD 0
  if count == 1 then mapVotes.erase vote else mapVotes.insert vote (sub64 count 1)

/-- One consultation vote of the block. -/
def undoConsultationVote (view : CStateView) (hash : UInt256) (vote : Nat) : CStateView :=
  match view.getConsultation hash with
  | some c => view.setConsultation hash { c with mapVotes := uncountValue c.mapVotes vote }
  | none =>
    match view.getConsultationAnswer hash with
    | some a => view.setConsultationAnswer hash
        { a with nVotes := toI32 (sub64 (toU64 a.nVotes) 1) }
    | none => view

/-- The votes that the block recorded, taken off the counters. -/
def undoRecordedVotes (recorded : RecordedVotes) (blockhash : UInt256) (view : CStateView) :
    CStateView :=
  let st := (recorded.vProposalVotes[blockhash]?.getD []).foldl undoProposalVote (view, [])
  let st := (recorded.vPaymentRequestVotes[blockhash]?.getD []).foldl undoPaymentRequestVote st
  let st := (recorded.mapSupport[blockhash]?.getD ∅).keys.foldl undoSupport st
  (recorded.mapConsultationVotes[blockhash]?.getD ∅).foldl undoConsultationVote st.1

/-! ## Voters and parameters -/

/-- Every voter loses the votes at a height. -/
def clearVotes (nHeight : Nat) (view : CStateView) : CStateView :=
  view.votes.keys.foldl (fun view voter =>
    view.setCachedVoter voter ((view.votes[voter]?.getD ⟨∅⟩).clear nHeight)) view

/-- Every parameter loses its value of a height. -/
def clearParameters (nHeight : Nat) (view : CStateView) : CStateView :=
  (List.range MAX_CONSENSUS_PARAMS).foldl (fun view i =>
    view.modifyConsensusParameter i (·.clear nHeight)) view

/-- The condition under which the voters' lists are cleared. -/
def clearsVotes (node : Node) (block : CBlock) (pindex : CBlockIndex) (pprev : Chain) : Bool :=
  block.isProofOfStake && node.isActive .voteStateCache pprev &&
    node.isActive .communityFund pprev && !pindex.excluded

/-! ## The block -/

/-- `DisconnectBlock` on the view of the block `pindex`, with its undo data; the flag is
`fClean`. -/
def disconnectBlock (node : Node) (block : CBlock) (pindex : CBlockIndex) (pprev : Chain)
    (recorded : RecordedVotes) (vtxundo : List (List CTxInUndo)) (view : CStateView) :
    Option (Bool × CStateView) :=
  let fCFund := node.isActive .communityFund pprev
  let fDAOConsultations := node.isActive .consultations pprev
  if vtxundo.length + 1 ≠ block.vtx.length then none
  else do
    let (fClean, view) ← (block.vtx.zip (none :: vtxundo.map some)).foldrM (fun it st =>
      disconnectTx pindex.nHeight it
        (st.1, removeObject node block.hash fCFund fDAOConsultations it.1 st.2)) (true, view)
    let view := undoRecordedVotes recorded block.hash view
    let view := if clearsVotes node block pindex pprev then clearVotes pindex.nHeight view else view
    return (fClean, clearParameters pindex.nHeight view)

end Electrum
