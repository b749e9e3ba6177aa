import Electrum.Validation.Chain

/-!
# The votes that a block casts

`ConnectBlock` walks over the votes in a block's transactions and writes those that are
admitted into the lists of their voters, at the block's height.  `castVotes` says which votes
these are from the block and the objects of the view alone, without the lists.

Main results:
* `ConnectRun.votes` — `ConnectBlock` writes the votes that are cast, and nothing else
-/

namespace Electrum

open Bool

/-! ## The votes that a block casts -/

/-- A vote for an object, by the key of a voter. -/
structure CastVote where
  voter : List UInt8
  hash : UInt256
  vote : Int
  deriving DecidableEq

/-- The vote of an output is taken into the list of its voter. -/
def admitsVote (ctx : ConnectContext) (view : CStateView) (out : CTxOut) (hash : UInt256)
    (vote : Int) : Bool :=
  let env := ctx.node.toEnv
  if ctx.fDAOConsultations && out.isConsultationVote then
    votableConsultation env view hash vote ||
      (view.consultations.contains hash && vote == VOTE_REMOVE) || votableAnswer env view hash
  else
    (ctx.fCFund && ((out.isProposalVote && votableProposal env view hash) ||
      (out.isPaymentRequestVote && votablePaymentRequest env view hash))) ||
    (ctx.fDAOConsultations && out.isSupportVote && supportable env view hash)

/-- The votes seen in the block so far, by voter and object, and those that are cast. -/
abbrev VoteWalk := Map (List UInt8 × UInt256) Int × List CastVote

/-- One output of a voting transaction. -/
def castOutput (ctx : ConnectContext) (view : CStateView) (voter : List UInt8) (walk : VoteWalk)
    (out : CTxOut) : VoteWalk :=
  match outputVote out with
  | some (some (hash, vote)) =>
    if walk.1.contains (voter, hash) then walk
    else
      let seen := if vote == VOTE_REMOVE then walk.1 else walk.1.insert (voter, hash) vote
      if ctx.fVoteCacheState && !voter.isEmpty && admitsVote ctx view out hash vote then
        (if ctx.fDAOConsultations && out.isConsultationVote then seen
          else seen.insert (voter, hash) vote, walk.2 ++ [⟨voter, hash, vote⟩])
      else (seen, walk.2)
  | _ => walk

/-- The transaction carries votes: the coinbase, or a light wallet's vote. -/
def carriesVotes (ctx : ConnectContext) (fDaoTx : Bool) (tx : CTransaction) (i : Nat) : Bool :=
  (ctx.fCFund || ctx.fDAOConsultations) && !ctx.pindex.excluded &&
    ((tx.isCoinBase && !ctx.fStakerIsColdStakingv2) || (ctx.fStake && fDaoTx && decide (1 < i)) ||
      (!ctx.fStake && fDaoTx && decide (0 < i)))

def isDaoTx (ctx : ConnectContext) (view : CStateView) (tx : CTransaction) : Bool :=
  isValidDaoTxVote ctx.node.toEnv view tx && ctx.fVoteCacheState && ctx.fColdStakingv2

/-- One transaction: its votes on the objects so far, and then the object it creates. -/
def castTx (ctx : ConnectContext) (st : CStateView × VoteWalk) (it : CTransaction × Nat) :
    CStateView × VoteWalk :=
  let fDaoTx := isDaoTx ctx st.1 it.1
  let walk := if carriesVotes ctx fDaoTx it.1 it.2 then
      it.1.vout.foldl (castOutput ctx st.1 ((voterScriptOf ctx it.1 fDaoTx).getD [])) st.2
    else st.2
  ((createObject ctx it.1 it.1.getValueOutCFund st.1).getD st.1, walk)

/-- The votes of a block for the voters' lists, in order. -/
def castVotes (ctx : ConnectContext) (view : CStateView) : List CastVote :=
  (ctx.block.vtx.zipIdx.foldl (castTx ctx) (view, ∅, [])).2.2

/-- The lists with one more vote. -/
def writeVote (nHeight : Nat) (votes : Map (List UInt8) CVoteList) (c : CastVote) :
    Map (List UInt8) CVoteList :=
  Map.setUnless CVoteList.isNull votes c.voter
    ((votes[c.voter]?.getD ⟨∅⟩).set nHeight c.hash c.vote)

/-! ## ConnectBlock writes the votes that are cast -/

/-- The walk and the loop of `ConnectBlock` go together: same votes seen, and the lists hold
what was cast. -/
structure Follows (nHeight : Nat) (votes : Map (List UInt8) CVoteList) (walk : VoteWalk)
    (st : ConnectState) : Prop where
  seen : st.votes = walk.1
  lists : st.view.votes = walk.2.foldl (writeVote nHeight) votes

/-- What taking the vote of an output does: nothing, a new entry in the list of the voter, or
something that the lists do not show. -/
theorem takeVote_cases {ctx : ConnectContext} {i : Nat} {voter : List UInt8} {s : ConnectState}
    {counts : Map UInt256 Int} {st' : ConnectState × Map UInt256 Int} {out : CTxOut}
    (h : takeVote ctx i voter (s, counts) out = .ok st') :
    (outputVote out = some none ∧ st'.1 = s) ∨
    ∃ hash vote, outputVote out = some (some (hash, vote)) ∧
      ((s.votes.contains (voter, hash) = true ∧ st'.1 = s) ∨
      (s.votes.contains (voter, hash) = false ∧
        (ctx.fVoteCacheState && !voter.isEmpty && admitsVote ctx s.view out hash vote) = true ∧
        st'.1 = { s with
          votes := if ctx.fDAOConsultations && out.isConsultationVote then
              (if vote == VOTE_REMOVE then s.votes else s.votes.insert (voter, hash) vote)
            else (if vote == VOTE_REMOVE then s.votes else
              s.votes.insert (voter, hash) vote).insert (voter, hash) vote
          view := s.view.setVote voter ctx.pindex.nHeight hash vote }) ∨
      (s.votes.contains (voter, hash) = false ∧
        (ctx.fVoteCacheState && !voter.isEmpty && admitsVote ctx s.view out hash vote) = false ∧
        ∃ recorded, st'.1 = { s with
          votes := if vote == VOTE_REMOVE then s.votes else s.votes.insert (voter, hash) vote
          recorded := recorded })) := by
  unfold takeVote at h
  obtain ⟨found, hFound, h⟩ := Except.bind_eq_ok.mp h
  have hOutput := ConnectState.require_ok.mp hFound
  cases found with
  | none =>
    cases h
    exact .inl ⟨hOutput, rfl⟩
  | some found =>
    obtain ⟨hash, vote⟩ := found
    refine .inr ⟨hash, vote, hOutput, ?_⟩
    dsimp only at h
    split at h
    case isTrue hSeen =>
      cases h
      exact .inl ⟨hSeen, rfl⟩
    case isFalse hSeen =>
      have hSeen : s.votes.contains (voter, hash) = false := eq_false_iff.mpr hSeen
      refine .inr ?_
      generalize (if vote == VOTE_REMOVE then s.votes else s.votes.insert (voter, hash) vote) = seen
        at h ⊢
      split at h
      case isTrue hCache =>
        rw [hCache]
        change (if admitsVote ctx s.view out hash vote = true then _ else _) = _ at h
        cases hAdmits : admitsVote ctx s.view out hash vote with
        | true =>
          rw [if_pos hAdmits] at h
          cases h
          exact .inl ⟨hSeen, rfl, rfl⟩
        | false =>
          rw [if_neg (by rw [hAdmits]; exact false_ne_true)] at h
          cases h
          exact .inr ⟨hSeen, rfl, s.recorded, rfl⟩
      case isFalse hCache =>
        -- without the cache the votes of the coinbase are recorded for the block
        rw [eq_false_iff.mpr hCache]
        refine .inr ⟨hSeen, rfl, ?_⟩
        repeat' split at h
        all_goals
          cases h
          exact ⟨_, rfl⟩

/-- One output. -/
theorem takeVote_cast {ctx : ConnectContext} {i : Nat} {voter : List UInt8}
    {st st' : ConnectState × Map UInt256 Int} {out : CTxOut} {view : CStateView}
    {votes : Map (List UInt8) CVoteList} {walk : VoteWalk}
    (hView : st.1.view = { view with coins := st.1.view.coins, votes := st.1.view.votes })
    (hFollows : Follows ctx.pindex.nHeight votes walk st.1)
    (h : takeVote ctx i voter st out = .ok st') :
    st'.1.view = { view with coins := st'.1.view.coins, votes := st'.1.view.votes } ∧
      Follows ctx.pindex.nHeight votes (castOutput ctx view voter walk out) st'.1 := by
  obtain ⟨s, counts⟩ := st
  obtain ⟨hSeen, hLists⟩ := hFollows
  have hAdmits : ∀ hash vote, admitsVote ctx s.view out hash vote =
      admitsVote ctx view out hash vote := by
    intro hash vote
    rw [hView]
    rfl
  unfold castOutput
  rw [← hSeen]
  rcases takeVote_cases h with ⟨hNone, hSame⟩ | ⟨hash, vote, hSome, hCases⟩
  · rw [hNone, hSame]
    exact ⟨hView, hSeen, hLists⟩
  · rw [hSome]
    dsimp only
    rcases hCases with ⟨hKey, hSame⟩ | ⟨hKey, hAdmitted, hNew⟩ | ⟨hKey, hRefused, recorded, hNew⟩
    · rw [if_pos hKey, hSame]
      exact ⟨hView, hSeen, hLists⟩
    · rw [if_neg (by rw [hKey]; exact false_ne_true), ← hAdmits, if_pos hAdmitted, hNew]
      refine ⟨?_, rfl, ?_⟩
      · rw [hView]
        rfl
      · rw [List.foldl_append, ← hLists]
        rfl
    · rw [if_neg (by rw [hKey]; exact false_ne_true), ← hAdmits,
        if_neg (by rw [hRefused]; exact false_ne_true), hNew]
      exact ⟨hView, rfl, hLists⟩

/-- The votes of one transaction. -/
theorem takeVotes_cast {ctx : ConnectContext} {i : Nat} {tx : CTransaction}
    {st st' : ConnectState} {view : CStateView} {votes : Map (List UInt8) CVoteList}
    {walk : VoteWalk}
    (hView : st.view = { view with coins := st.view.coins, votes := st.view.votes })
    (hFollows : Follows ctx.pindex.nHeight votes walk st)
    (h : takeVotes ctx i tx st = .ok st') :
    st'.view = { view with coins := st'.view.coins, votes := st'.view.votes } ∧
      Follows ctx.pindex.nHeight votes (castTx ctx (view, walk) (tx, i)).2 st' := by
  have hDaoTx : isDaoTx ctx st.view tx = isDaoTx ctx view tx := by
    rw [hView]
    rfl
  unfold takeVotes at h
  dsimp only at h
  rw [show (isValidDaoTxVote ctx.node.toEnv st.view tx && ctx.fVoteCacheState &&
    ctx.fColdStakingv2) = isDaoTx ctx view tx from hDaoTx] at h
  unfold castTx carriesVotes
  dsimp only
  split at h
  case isFalse hNot =>
    cases h
    rw [if_neg hNot]
    exact ⟨hView, hFollows⟩
  case isTrue hCarries =>
    rw [if_pos hCarries]
    obtain ⟨voter, hVoter, h⟩ := Except.bind_eq_ok.mp h
    obtain ⟨⟨s, counts⟩, hFold, h⟩ := Except.bind_eq_ok.mp h
    cases h
    rw [ConnectState.require_ok.mp hVoter]
    refine foldlM_except_invariant
      (fun done (s : ConnectState × Map UInt256 Int) =>
        s.1.view = { view with coins := s.1.view.coins, votes := s.1.view.votes } ∧
        Follows ctx.pindex.nHeight votes (done.foldl (castOutput ctx view voter) walk) s.1)
      tx.vout (b := (st, ∅)) ⟨hView, hFollows⟩ ?_ hFold
    intro done out rest s s' _ hP hStep
    rw [List.foldl_append]
    exact takeVote_cast hP.1 hP.2 hStep

section OtherViews

variable (view : CStateView) (coins : Map UInt256 CCoins) (votes : Map (List UInt8) CVoteList)

theorem addProposal_withCoinsVotes (p : CProposal) :
    ({ view with coins := coins, votes := votes } : CStateView).addProposal p =
      { view.addProposal p with coins := coins, votes := votes } := by
  unfold CStateView.addProposal
  split <;> rfl

theorem addPaymentRequest_withCoinsVotes (r : CPaymentRequest) :
    ({ view with coins := coins, votes := votes } : CStateView).addPaymentRequest r =
      { view.addPaymentRequest r with coins := coins, votes := votes } := by
  unfold CStateView.addPaymentRequest
  split <;> rfl

theorem addConsultationAnswer_withCoinsVotes (a : CConsultationAnswer) :
    ({ view with coins := coins, votes := votes } : CStateView).addConsultationAnswer a =
      { view.addConsultationAnswer a with coins := coins, votes := votes } := by
  unfold CStateView.addConsultationAnswer
  split <;> rfl

theorem addConsultationWithAnswers_withCoinsVotes (c : CConsultation)
    (answers : List CConsultationAnswer) :
    ({ view with coins := coins, votes := votes } : CStateView).addConsultationWithAnswers c answers =
      { view.addConsultationWithAnswers c answers with coins := coins, votes := votes } := by
  have hFold : ∀ v : CStateView, answers.foldl CStateView.addConsultationAnswer
      { v with coins := coins, votes := votes } =
        { answers.foldl CStateView.addConsultationAnswer v with
          coins := coins, votes := votes } := by
    induction answers with
    | nil => exact fun v => rfl
    | cons a answers ih =>
      intro v
      rw [List.foldl_cons, addConsultationAnswer_withCoinsVotes, ih]
      rfl
  have hAdd : ({ view with coins := coins, votes := votes } : CStateView).addConsultation c =
      { view.addConsultation c with coins := coins, votes := votes } := by
    unfold CStateView.addConsultation
    split <;> rfl
  unfold CStateView.addConsultationWithAnswers
  rw [hAdd]
  split
  · rfl
  · split
    · rfl
    · exact hFold _

/-- Creating an object reads and changes neither coins nor lists. -/
theorem createObject_withCoinsVotes {ctx : ConnectContext} {tx : CTransaction} {fee : Int} :
    createObject ctx tx fee { view with coins := coins, votes := votes } =
      (createObject ctx tx fee view).map fun v => { v with coins := coins, votes := votes } := by
  -- no check of an object reads coins or votes
  have hProposal : isValidProposal ctx.node { view with coins := coins, votes := votes } tx
      ctx.mask.nProposalMask = isValidProposal ctx.node view tx ctx.mask.nProposalMask := rfl
  have hRequest : isValidPaymentRequest ctx.node { view with coins := coins, votes := votes } tx
      ctx.mask.nPaymentRequestMask =
        isValidPaymentRequest ctx.node view tx ctx.mask.nPaymentRequestMask := rfl
  have hConsultation : isValidConsultation ctx.node ctx.pprev
      { view with coins := coins, votes := votes } tx ctx.mask.nConsultationMask =
        isValidConsultation ctx.node ctx.pprev view tx ctx.mask.nConsultationMask := rfl
  have hAnswer : isValidConsultationAnswer ctx.node ctx.pprev
      { view with coins := coins, votes := votes } tx =
        isValidConsultationAnswer ctx.node ctx.pprev view tx := rfl
  unfold createObject
  dsimp only
  rw [hProposal, hRequest, hConsultation, hAnswer]
  split
  case isTrue =>
    cases isValidProposal ctx.node view tx ctx.mask.nProposalMask with
    | none => rfl
    | some valid =>
      cases valid with
      | false => rfl
      | true =>
        cases txToProposal ctx.node tx ctx.block.hash fee with
        | none => rfl
        | some proposal =>
          exact congrArg some (addProposal_withCoinsVotes view coins votes proposal)
  case isFalse =>
    split
    case isTrue =>
      cases isValidPaymentRequest ctx.node view tx ctx.mask.nPaymentRequestMask with
      | none => rfl
      | some valid =>
        cases valid with
        | false => rfl
        | true =>
          cases txToPaymentRequest ctx.node tx ctx.block.hash with
          | none => rfl
          | some prequest =>
            dsimp only [bind, Option.bind]
            rw [addPaymentRequest_withCoinsVotes]
            unfold CStateView.getProposal
            generalize (view.proposals[prequest.proposalhash]?).any
              (·.getLastState ctx.node.mapBlockIndex == .accepted) = fAccepted
            cases fAccepted <;> rfl
    case isFalse =>
      split
      case isTrue =>
        split
        · cases txToConsultation ctx.node ctx.pprev tx ctx.block.hash with
          | none => rfl
          | some made =>
            exact congrArg some (addConsultationWithAnswers_withCoinsVotes view coins votes _ _)
        · rfl
      case isFalse =>
        split
        case isTrue =>
          split
          · cases txToConsultationAnswer ctx.node tx ctx.block.hash with
            | none => rfl
            | some answer =>
              dsimp only [bind, Option.bind]
              rw [addConsultationAnswer_withCoinsVotes]
              unfold CStateView.getConsultation
              split <;> rfl
          · rfl
        case isFalse => rfl

end OtherViews

/-- One transaction. -/
theorem connectTx_cast {ctx : ConnectContext} {st st' : ConnectState} {it : CTransaction × Nat}
    {view : CStateView} {votes : Map (List UInt8) CVoteList} {walk : VoteWalk}
    (hView : st.view = { view with coins := st.view.coins, votes := st.view.votes })
    (hFollows : Follows ctx.pindex.nHeight votes walk st) (h : connectTx ctx st it = .ok st') :
    st'.view = { (castTx ctx (view, walk) it).1 with
        coins := st'.view.coins, votes := st'.view.votes } ∧
      Follows ctx.pindex.nHeight votes (castTx ctx (view, walk) it).2 st' := by
  obtain ⟨tx, i⟩ := it
  obtain ⟨st1, st2, view1, view2, undo, hVotes, -, hValues, hCreate, hCoins, rfl⟩ := connectTx_ok h
  obtain ⟨hView1, hFollows1⟩ := takeVotes_cast hView hFollows hVotes
  obtain ⟨hSame, hSeen, -⟩ := checkValues_kept hValues
  rw [hSame, hView1, createObject_withCoinsVotes, Option.map_eq_some_iff] at hCreate
  obtain ⟨v, hCreated, rfl⟩ := hCreate
  have hFrame := updateCoins_frame hCoins
  have hVotes2 := congrArg CStateView.votes hFrame
  have hObjects : (castTx ctx (view, walk) (tx, i)).1 = v := by
    unfold castTx
    rw [hCreated, Option.getD_some]
  refine ⟨?_, ?_, ?_⟩
  · rw [hObjects]
    rw [hVotes2]
    exact hFrame
  · exact hSeen.trans hFollows1.seen
  · exact hVotes2.trans hFollows1.lists

/-- **The lists.** A block writes the votes that it casts, and nothing else. -/
theorem ConnectRun.votes {node : Node} {block : CBlock} {pindex : CBlockIndex} {pprev : Chain}
    {fund : Fund} {recorded : RecordedVotes} {view : CStateView} {r : Connected}
    (run : ConnectRun node block pindex pprev fund recorded view r) :
    r.view.votes = (castVotes (connectContext node block pindex pprev run.stakerScript)
      view).foldl (writeVote pindex.nHeight) view.votes := by
  have hLoop := foldlM_except_invariant
    (fun done (st : ConnectState) =>
      st.view = { (done.foldl (castTx (connectContext node block pindex pprev run.stakerScript))
        (view, ∅, [])).1 with coins := st.view.coins, votes := st.view.votes } ∧
      Follows pindex.nHeight view.votes
        (done.foldl (castTx (connectContext node block pindex pprev run.stakerScript))
          (view, ∅, [])).2 st)
    block.vtx.zipIdx (b := .initial fund recorded view) ⟨rfl, rfl, rfl⟩ ?_ run.loop
  · have hView : r.view = run.cb.view := congrArg Connected.view run.result
    rw [hView, run.paysOut.frame]
    exact hLoop.2.lists
  · intro done it rest st st' _ hP hStep
    rw [List.foldl_append]
    exact connectTx_cast hP.1 hP.2 hStep

end Electrum
