import Electrum.Dao.FundSums
import Electrum.Dao.StepMoves

/-!
# The votes of a cycle

What the vote caches should hold: for each proposal and payment request, how many blocks of the
cycle voted which way, a block's vote being its first recorded entry.  The count does not depend
on the order of the blocks, so a cache that follows the chain block by block holds what a scan
of the whole cycle finds.

Main results:
* `countVotes_spec` — the loop over the votes of a block
* `cycleCount_eq` — the count of a list of blocks, vote by vote
* `scanBlocks_counts`, `VoteCache.Counts.scanBlock` — the scan of a cycle, and of one more block
-/

namespace Electrum

open List

/-! ## The vote of a block -/

/-- The first entry for an object. -/
def firstVote (entries : List (UInt256 × Int)) (hash : UInt256) : Option Int :=
  (entries.find? fun it => it.1 == hash).map (·.2)

/-- What a block votes on a proposal; blocks of excluded stakers do not vote. -/
def proposalVote (votes : RecordedVotes) (hash : UInt256) (pindex : CBlockIndex) : Option Int :=
  if pindex.excluded then none
  else firstVote (votes.vProposalVotes[pindex.phashBlock]?.getD []) hash

/-- What a block votes on a payment request.  A hash that the block recorded as a proposal's is
not taken for a payment request's. -/
def requestVote (votes : RecordedVotes) (hash : UInt256) (pindex : CBlockIndex) : Option Int :=
  if pindex.excluded then none
  else if (firstVote (votes.vProposalVotes[pindex.phashBlock]?.getD []) hash).isSome then none
  else firstVote (votes.vPaymentRequestVotes[pindex.phashBlock]?.getD []) hash

/-- The count with one more vote, if there is one. -/
def addVote (count : Option VoteCount) : Option Int → Option VoteCount
  | none => count
  | some vote => some ((count.getD .zero).add vote)

theorem firstVote_cons (it : UInt256 × Int) (rest : List (UInt256 × Int)) (hash : UInt256) :
    firstVote (it :: rest) hash = if it.1 = hash then some it.2 else firstVote rest hash := by
  unfold firstVote
  by_cases hEq : it.1 = hash
  · rw [List.find?_cons_of_pos (by simpa using hEq), if_pos hEq]
    rfl
  · rw [List.find?_cons_of_neg (by simpa using hEq), if_neg hEq]

/-- **The loop over the votes of a block.** The first entry of an object counts, unless the
object was seen before. -/
theorem countVotes_spec (votes : List (UInt256 × Int)) (s : Map UInt256 VoteCount × List UInt256)
    (hash : UInt256) :
    (countVotes votes s).1[hash]? =
      addVote s.1[hash]? (if hash ∈ s.2 then none else firstVote votes hash) ∧
    (hash ∈ (countVotes votes s).2 ↔ hash ∈ s.2 ∨ (firstVote votes hash).isSome = true) := by
  induction votes generalizing s with
  | nil => simp [countVotes, firstVote, addVote]
  | cons it rest ih =>
    have hTurn : countVotes (it :: rest) s = countVotes rest (if s.2.contains it.1 then s
        else (Map.upsert s.1 it.1 .zero (·.add it.2), it.1 :: s.2)) := rfl
    rw [hTurn, firstVote_cons]
    by_cases hSeen : it.1 ∈ s.2
    · rw [if_pos (by simpa using hSeen), (ih s).1, (ih s).2]
      by_cases hEq : it.1 = hash
      · subst hEq
        simp [hSeen]
      · rw [if_neg hEq]
        exact ⟨rfl, Iff.rfl⟩
    · rw [if_neg (by simpa using hSeen), (ih _).1, (ih _).2]
      by_cases hEq : it.1 = hash
      · subst hEq
        simp [hSeen, addVote, Map.upsert]
      · simp [hEq, Ne.symm hEq, Map.upsert, Std.ExtTreeMap.getElem?_insert]

section Scan

variable (view : CStateView) (votes : RecordedVotes) (fDAOConsultations : Bool) (c : VoteCache)
  (pindex : CBlockIndex) (hash : UInt256)

theorem scanBlock_proposals :
    (scanBlock view votes true fDAOConsultations c pindex).mapCacheProposalsToUpdate[hash]? =
      addVote c.mapCacheProposalsToUpdate[hash]? (proposalVote votes hash pindex) := by
  unfold scanBlock proposalVote
  split
  · rfl
  · exact (countVotes_spec _ (c.mapCacheProposalsToUpdate, []) hash).1

theorem scanBlock_requests :
    (scanBlock view votes true fDAOConsultations c pindex).mapCachePaymentRequestToUpdate[hash]? =
      addVote c.mapCachePaymentRequestToUpdate[hash]? (requestVote votes hash pindex) := by
  unfold scanBlock requestVote
  split
  · rfl
  · refine (countVotes_spec _ (c.mapCachePaymentRequestToUpdate, _) hash).1.trans ?_
    -- the proposals seen in this block are those with an entry
    have hSeen := (countVotes_spec (votes.vProposalVotes[pindex.phashBlock]?.getD [])
      (c.mapCacheProposalsToUpdate, []) hash).2
    simp only [not_mem_nil, false_or] at hSeen
    simp only [if_true, hSeen]

/-- Before the deployment no vote counts. -/
theorem scanBlock_inactive :
    (scanBlock view votes false fDAOConsultations c pindex).mapCacheProposalsToUpdate =
      c.mapCacheProposalsToUpdate ∧
    (scanBlock view votes false fDAOConsultations c pindex).mapCachePaymentRequestToUpdate =
      c.mapCachePaymentRequestToUpdate := by
  unfold scanBlock
  split
  · exact ⟨rfl, rfl⟩
  · exact ⟨rfl, rfl⟩

theorem scanBlock_hash (fCFund : Bool) :
    (scanBlock view votes fCFund fDAOConsultations c pindex).lastConsensusStateHash =
      c.lastConsensusStateHash := by
  unfold scanBlock
  split
  · rfl
  · rfl

end Scan

/-! ## The count of a list of blocks -/

theorem VoteCount.add_comm (n : VoteCount) (v w : Int) : (n.add v).add w = (n.add w).add v := by
  unfold VoteCount.add
  by_cases hv : v = VOTE_YES
  · by_cases hw : w = VOTE_YES
    · rw [hv, hw]
    · repeat' split
      all_goals rfl
  · repeat' split
    all_goals rfl

theorem addVote_comm (n : Option VoteCount) (v w : Option Int) :
    addVote (addVote n v) w = addVote (addVote n w) v := by
  cases v with
  | none => rfl
  | some v =>
    cases w with
    | none => rfl
    | some w => exact congrArg some (VoteCount.add_comm _ v w)

/-- The count over some blocks, `none` if none of them votes. -/
def cycleCount (vote : CBlockIndex → Option Int) (blocks : Chain) : Option VoteCount :=
  blocks.foldl (fun n pindex => addVote n (vote pindex)) none

theorem foldl_addVote (vote : CBlockIndex → Option Int) (blocks : Chain) (n : Option VoteCount)
    (v : Option Int) :
    blocks.foldl (fun n pindex => addVote n (vote pindex)) (addVote n v) =
      addVote (blocks.foldl (fun n pindex => addVote n (vote pindex)) n) v := by
  induction blocks generalizing n with
  | nil => rfl
  | cons pindex rest ih => rw [foldl_cons, foldl_cons, addVote_comm, ih]

/-- The last block may be counted last. -/
theorem cycleCount_cons (vote : CBlockIndex → Option Int) (pindex : CBlockIndex) (blocks : Chain) :
    cycleCount vote (pindex :: blocks) = addVote (cycleCount vote blocks) (vote pindex) :=
  foldl_addVote vote blocks none (vote pindex)

/-- The number of blocks that vote `value`. -/
def blocksVoting (vote : CBlockIndex → Option Int) (blocks : Chain) (value : Int) : Int :=
  (blocks.countP fun pindex => vote pindex == some value : Nat)

theorem blocksVoting_cons (vote : CBlockIndex → Option Int) (pindex : CBlockIndex)
    (blocks : Chain) (value : Int) :
    blocksVoting vote (pindex :: blocks) value =
      blocksVoting vote blocks value + if vote pindex = some value then 1 else 0 := by
  unfold blocksVoting
  rw [countP_cons]
  simp only [beq_iff_eq]
  split <;> simp

/-- **The count of a cycle.** -/
theorem cycleCount_eq (vote : CBlockIndex → Option Int) (blocks : Chain) :
    (cycleCount vote blocks).getD .zero = ⟨blocksVoting vote blocks VOTE_YES,
      blocksVoting vote blocks VOTE_NO, blocksVoting vote blocks VOTE_ABSTAIN⟩ := by
  induction blocks with
  | nil => rfl
  | cons pindex rest ih =>
    rw [cycleCount_cons]
    simp only [blocksVoting_cons]
    cases hVote : vote pindex with
    | none =>
      rw [addVote, ih]
      simp
    | some v =>
      rw [addVote, ih]
      unfold VoteCount.add
      by_cases hYes : v = VOTE_YES
      · subst hYes
        rfl
      · by_cases hAbs : v = VOTE_ABSTAIN
        · subst hAbs
          rfl
        · by_cases hNo : v = VOTE_NO
          · subst hNo
            rfl
          · simp [hYes, hAbs, hNo]

/-- An object is in the count when a block votes on it. -/
theorem cycleCount_eq_none {vote : CBlockIndex → Option Int} {blocks : Chain} :
    cycleCount vote blocks = none ↔ ∀ pindex ∈ blocks, vote pindex = none := by
  induction blocks with
  | nil => simp [cycleCount]
  | cons pindex rest ih =>
    rw [cycleCount_cons, forall_mem_cons, ← ih]
    cases vote pindex with
    | none => simp [addVote]
    | some v => simp [addVote]

/-- The count depends on the votes of the blocks alone. -/
theorem cycleCount_congr {vote vote' : CBlockIndex → Option Int} {blocks : Chain}
    (h : ∀ pindex ∈ blocks, vote' pindex = vote pindex) :
    cycleCount vote' blocks = cycleCount vote blocks := by
  induction blocks with
  | nil => rfl
  | cons pindex rest ih =>
    rw [forall_mem_cons] at h
    rw [cycleCount_cons, cycleCount_cons, h.1, ih h.2]

/-! ## The caches -/

/-- The caches hold the counts over the blocks. -/
structure VoteCache.Counts (votes : RecordedVotes) (blocks : Chain) (c : VoteCache) : Prop where
  proposals : ∀ hash : UInt256, c.mapCacheProposalsToUpdate[hash]? =
    cycleCount (proposalVote votes hash) blocks
  requests : ∀ hash : UInt256, c.mapCachePaymentRequestToUpdate[hash]? =
    cycleCount (requestVote votes hash) blocks

/-- No block has recorded a vote on a proposal or a payment request. -/
def RecordedVotes.NoFundVotes (votes : RecordedVotes) : Prop :=
  votes.vProposalVotes = ∅ ∧ votes.vPaymentRequestVotes = ∅

section Counts

variable {view : CStateView} {votes : RecordedVotes} {fCFund fDAOConsultations : Bool}
  {c : VoteCache}

theorem proposalVote_none (h : votes.NoFundVotes) (hash : UInt256) (pindex : CBlockIndex) :
    proposalVote votes hash pindex = none := by
  unfold proposalVote
  rw [h.1]
  split <;> rfl

theorem requestVote_none (h : votes.NoFundVotes) (hash : UInt256) (pindex : CBlockIndex) :
    requestVote votes hash pindex = none := by
  unfold requestVote
  rw [h.1, h.2]
  split <;> rfl

/-- One more block: the caches follow. -/
theorem VoteCache.Counts.scanBlock {blocks : Chain} (h : c.Counts votes blocks)
    (hActive : fCFund = false → votes.NoFundVotes) (pindex : CBlockIndex) :
    (scanBlock view votes fCFund fDAOConsultations c pindex).Counts votes (pindex :: blocks) := by
  cases fCFund with
  | true =>
    refine ⟨fun hash => ?_, fun hash => ?_⟩
    · rw [scanBlock_proposals, h.proposals, cycleCount_cons]
    · rw [scanBlock_requests, h.requests, cycleCount_cons]
  | false =>
    have hNone := hActive rfl
    obtain ⟨hProposals, hRequests⟩ := scanBlock_inactive view votes fDAOConsultations c pindex
    refine ⟨fun hash => ?_, fun hash => ?_⟩
    · rw [hProposals, h.proposals, cycleCount_cons, proposalVote_none hNone, addVote]
    · rw [hRequests, h.requests, cycleCount_cons, requestVote_none hNone, addVote]

theorem VoteCache.Counts.perm {blocks blocks' : Chain} (h : c.Counts votes blocks)
    (hPerm : blocks.Perm blocks') : c.Counts votes blocks' := by
  have hCount (vote : CBlockIndex → Option Int) : cycleCount vote blocks = cycleCount vote blocks' :=
    hPerm.foldl_eq' (fun a _ b _ n => addVote_comm n (vote a) (vote b)) none
  exact ⟨fun hash => (h.proposals hash).trans (hCount _),
    fun hash => (h.requests hash).trans (hCount _)⟩

/-- **The scan of a cycle.** -/
theorem scanBlocks_counts (hActive : fCFund = false → votes.NoFundVotes) (nBlocks : Nat)
    (chain : Chain) (hash : Option (List Nat)) :
    (scanBlocks view votes fCFund fDAOConsultations nBlocks chain (.cleared hash)).Counts votes
      (chain.take nBlocks) := by
  have hInit : (VoteCache.cleared hash).Counts votes [] := ⟨fun _ => rfl, fun _ => rfl⟩
  refine foldl_invariant (fun done (c : VoteCache) => c.Counts votes done) (chain.take nBlocks)
    hInit ?_
  intro done pindex rest c _ hCounts
  exact (hCounts.scanBlock hActive pindex).perm (perm_append_singleton pindex done).symm

theorem scanBlocks_hash (nBlocks : Nat) (chain : Chain) :
    (scanBlocks view votes fCFund fDAOConsultations nBlocks chain c).lastConsensusStateHash =
      c.lastConsensusStateHash := by
  refine foldl_invariant
    (fun _ (c' : VoteCache) => c'.lastConsensusStateHash = c.lastConsensusStateHash)
    (chain.take nBlocks) rfl ?_
  intro done pindex rest c' _ hSame
  rw [scanBlock_hash, hSame]

end Counts

end Electrum
