import Electrum.Validation.CastVotes
import Electrum.Validation.DisconnectFrame

/-!
# Are the voters' lists restored?

`ConnectBlock` writes the votes of a block into the lists of their voters, at the block's
height.  `DisconnectBlock` clears that height in every list, but under a condition of its own: it
asks for a proof-of-stake block and for the fund's deployment, while votes of light wallets are
also taken from proof-of-work blocks and while only the consultations are active.

Main results:
* `clear_written` — clearing the height undoes the votes of a block
* `votesInv_run` — no list has a vote above the tip
* `voterLists_restored_iff` — when connecting and disconnecting restores the lists
-/

namespace Electrum

open Std.ExtTreeMap Option

/-! ## Writing and clearing a height -/

/-- The list of a voter. -/
def votesOf (votes : Map (List UInt8) CVoteList) (voter : List UInt8) : CVoteList :=
  votes[voter]?.getD ⟨∅⟩

/-- Every height of a list has a vote. -/
def CVoteList.Tidy (v : CVoteList) : Prop :=
  ∀ (nHeight : Nat) (cast : Map UInt256 Int), v.list[nHeight]? = some cast → cast.isEmpty = false

theorem CVoteList.tidy_empty : (⟨∅⟩ : CVoteList).Tidy := by
  intro nHeight cast h
  simp at h

variable {v : CVoteList} {view : CStateView} {node : Node}

theorem CVoteList.Tidy.set (h : v.Tidy) (nHeight : Nat) (hash : UInt256)
    (vote : Int) : (v.set nHeight hash vote).Tidy := by
  unfold CVoteList.set
  split
  case isTrue => exact h
  case isFalse =>
    intro k cast hk
    rw [getElem?_insert] at hk
    split at hk
    case isTrue =>
      cases hk
      simp
    case isFalse => exact h k cast hk

theorem CVoteList.Tidy.clear (h : v.Tidy) (nHeight : Nat) : (v.clear nHeight).Tidy := by
  intro k cast hk
  unfold CVoteList.clear at hk
  rw [getElem?_erase] at hk
  split at hk
  case isTrue => cases hk
  case isFalse => exact h k cast hk

/-- A tidy list without votes is empty. -/
theorem CVoteList.Tidy.eq_empty (h : v.Tidy) (hNull : v.isNull = true) : v = ⟨∅⟩ := by
  obtain ⟨list⟩ := v
  congr 1
  apply ext_getElem?
  intro k
  cases hk : list[k]? with
  | none => simp
  | some cast =>
    have hMem := mem_toList_iff_getElem?_eq_some.mpr hk
    have hEmpty : cast.isEmpty = true := List.all_eq_true.mp hNull (k, cast) hMem
    rw [h k cast hk] at hEmpty
    cases hEmpty

/-- Every list is tidy. -/
def TidyLists (votes : Map (List UInt8) CVoteList) : Prop := ∀ voter, (votesOf votes voter).Tidy

/-- No list is empty, no height of a list is, and no vote was cast above a height. -/
structure ListsBelow (n : Nat) (votes : Map (List UInt8) CVoteList) : Prop where
  proper : ∀ (voter : List UInt8) (v : CVoteList), votes[voter]? = some v → v.isNull = false
  tidy : TidyLists votes
  below : ∀ (voter : List UInt8) (nHeight : Nat), n < nHeight →
    (votesOf votes voter).list[nHeight]? = none

theorem votesOf_setUnless (votes : Map (List UInt8) CVoteList) (voter voter' : List UInt8)
    (hTidy : v.Tidy) :
    votesOf (Map.setUnless CVoteList.isNull votes voter v) voter' =
      if voter = voter' then v else votesOf votes voter' := by
  unfold votesOf
  rw [Map.getElem?_setUnless]
  split
  · cases hNull : v.isNull with
    | false => rfl
    | true => exact (hTidy.eq_empty hNull).symm
  · rfl

theorem TidyLists.setUnless {votes : Map (List UInt8) CVoteList} (h : TidyLists votes)
    (voter : List UInt8) (hTidy : v.Tidy) :
    TidyLists (Map.setUnless CVoteList.isNull votes voter v) := by
  intro voter'
  rw [votesOf_setUnless votes voter voter' hTidy]
  split
  · exact hTidy
  · exact h voter'

section Height

variable {nHeight : Nat} {votes : Map (List UInt8) CVoteList}

theorem votesOf_writeVote (hTidy : TidyLists votes) (c : CastVote) (voter : List UInt8) :
    votesOf (writeVote nHeight votes c) voter =
      if c.voter = voter then (votesOf votes voter).set nHeight c.hash c.vote
      else votesOf votes voter := by
  refine (votesOf_setUnless votes c.voter voter
    ((hTidy c.voter).set nHeight c.hash c.vote)).trans ?_
  split
  case isTrue hEq =>
    subst hEq
    rfl
  case isFalse => rfl

theorem TidyLists.writeVote (h : TidyLists votes) (c : CastVote) :
    TidyLists (writeVote nHeight votes c) :=
  h.setUnless c.voter ((h c.voter).set nHeight c.hash c.vote)

theorem TidyLists.written (h : TidyLists votes) (cast : List CastVote) :
    TidyLists (cast.foldl (Electrum.writeVote nHeight) votes) :=
  foldl_invariant (fun _ lists => TidyLists lists) cast h fun _ c _ _ _ hLists => hLists.writeVote c

/-- A new vote stands at the height of its block alone. -/
theorem CVoteList.clear_set (v : CVoteList) (hash : UInt256) (vote : Int) :
    (v.set nHeight hash vote).clear nHeight = v.clear nHeight := by
  unfold set
  split
  · rfl
  · show (⟨_⟩ : CVoteList) = ⟨_⟩
    congr 1
    apply ext_getElem?
    intro k
    simp only [getElem?_erase, getElem?_insert]
    split <;> rfl

theorem CVoteList.clear_of_none {v : CVoteList} (h : v.list[nHeight]? = none) :
    v.clear nHeight = v := by
  show (⟨_⟩ : CVoteList) = v
  congr 1
  apply ext_getElem?
  intro k
  rw [getElem?_erase]
  split
  case isTrue hEq =>
    rw [← Std.compare_eq_iff_eq.mp hEq]
    exact h.symm
  case isFalse => rfl

/-- Clearing the height undoes all votes of the block. -/
theorem clear_written (hTidy : TidyLists votes) (cast : List CastVote) (voter : List UInt8)
    (hNone : (votesOf votes voter).list[nHeight]? = none) :
    (votesOf (cast.foldl (writeVote nHeight) votes) voter).clear nHeight = votesOf votes voter := by
  have hInv := foldl_invariant
    (fun _ lists => TidyLists lists ∧
      (votesOf lists voter).clear nHeight = (votesOf votes voter).clear nHeight)
    cast (b := votes) (f := writeVote nHeight) ⟨hTidy, rfl⟩ ?_
  · rw [hInv.2]
    exact CVoteList.clear_of_none hNone
  · intro done c rest lists _ hP
    refine ⟨hP.1.writeVote c, ?_⟩
    rw [votesOf_writeVote hP.1]
    split
    · rw [CVoteList.clear_set]
      exact hP.2
    · exact hP.2

variable {n : Nat} {c : CastVote}

/-- A vote that repeats the last one of its voter changes no list. -/
theorem writeVote_repeat (hBelow : ListsBelow n votes)
    (h : (votesOf votes c.voter).get c.hash = some c.vote) : writeVote nHeight votes c = votes := by
  unfold votesOf at h
  unfold writeVote
  cases hVoter : votes[c.voter]? with
  | none =>
    rw [hVoter] at h
    cases h
  | some v =>
    rw [hVoter] at h
    have hSet : v.set nHeight c.hash c.vote = v := by
      exact if_pos (beq_iff_eq.mpr h)
    rw [getD_some, hSet]
    exact Map.setUnless_self hVoter (hBelow.proper c.voter v hVoter)

/-- Any other vote leaves an entry at the height. -/
theorem writeVote_new (hTidy : TidyLists votes) (nHeight : Nat)
    (h : (votesOf votes c.voter).get c.hash ≠ some c.vote) :
    ((votesOf (writeVote nHeight votes c) c.voter).list[nHeight]?).isSome = true := by
  rw [votesOf_writeVote hTidy, if_pos rfl, CVoteList.set, if_neg (by simpa using h)]
  simp

/-- Entries stay. -/
theorem written_isSome (hTidy : TidyLists votes) {voter : List UInt8} (cast : List CastVote)
    (h : ((votesOf votes voter).list[nHeight]?).isSome = true) :
    ((votesOf (cast.foldl (writeVote nHeight) votes) voter).list[nHeight]?).isSome = true := by
  refine (foldl_invariant
    (fun _ lists => TidyLists lists ∧ ((votesOf lists voter).list[nHeight]?).isSome = true) cast
    (b := votes) (f := writeVote nHeight) ⟨hTidy, h⟩ ?_).2
  intro done c rest lists _ hP
  refine ⟨hP.1.writeVote c, ?_⟩
  rw [votesOf_writeVote hP.1]
  split
  · unfold CVoteList.set
    split
    · exact hP.2
    · simp
  · exact hP.2

/-- **What stays.** The votes of a block change no list exactly if every one repeats the last
vote of its voter. -/
theorem written_same_iff (hBelow : ListsBelow n votes) (hAbove : n < nHeight)
    (cast : List CastVote) :
    (∀ voter, votesOf (cast.foldl (writeVote nHeight) votes) voter = votesOf votes voter) ↔
      ∀ c ∈ cast, (votesOf votes c.voter).get c.hash = some c.vote := by
  induction cast with
  | nil => exact ⟨fun _ c hc => (List.not_mem_nil hc).elim, fun _ _ => rfl⟩
  | cons c cast ih =>
    rw [List.foldl_cons, List.forall_mem_cons]
    by_cases hRepeat : (votesOf votes c.voter).get c.hash = some c.vote
    · rw [writeVote_repeat hBelow hRepeat, ih]
      exact ⟨fun h => ⟨hRepeat, h⟩, fun h => h.2⟩
    · refine ⟨fun h => ?_, fun h => absurd h.1 hRepeat⟩
      have hEntry := written_isSome (hBelow.tidy.writeVote c) cast
        (writeVote_new hBelow.tidy nHeight hRepeat)
      rw [h c.voter, hBelow.below c.voter nHeight hAbove] at hEntry
      cases hEntry

/-- Votes are written at the height of the block. -/
theorem ListsBelow.written (hBelow : ListsBelow n votes) (hAbove : n ≤ nHeight)
    (cast : List CastVote) : ListsBelow nHeight (cast.foldl (writeVote nHeight) votes) := by
  refine foldl_invariant (fun _ lists => ListsBelow nHeight lists) cast
    (b := votes) (f := writeVote nHeight) ?_ ?_
  · exact ⟨hBelow.proper, hBelow.tidy, fun voter k hk => hBelow.below voter k (by omega)⟩
  · intro done c rest lists _ hP
    refine ⟨fun voter v hv => ?_, hP.tidy.writeVote c, fun voter k hk => ?_⟩
    · unfold writeVote at hv
      rw [Map.getElem?_setUnless] at hv
      split at hv
      case isTrue =>
        split at hv
        case isTrue => cases hv
        case isFalse hNull =>
          cases hv
          exact Bool.eq_false_iff.mpr hNull
      case isFalse => exact hP.proper voter v hv
    · rw [votesOf_writeVote hP.tidy]
      split
      case isFalse => exact hP.below voter k hk
      case isTrue =>
        unfold CVoteList.set
        split
        · exact hP.below voter k hk
        · rw [getElem?_insert, if_neg]
          · exact hP.below voter k hk
          · intro hEq
            rw [Std.compare_eq_iff_eq.mp hEq] at hk
            exact Nat.lt_irrefl _ hk

end Height

/-- `DisconnectBlock` clears the height in every list. -/
theorem votesOf_clearVotes (nHeight : Nat) (hTidy : TidyLists view.votes) (voter : List UInt8) :
    votesOf (clearVotes nHeight view).votes voter = (votesOf view.votes voter).clear nHeight := by
  have hKeys := foldl_turn (fun (v : CStateView) k => votesOf v.votes k)
    (f := fun v k => v.setCachedVoter k ((v.votes[k]?.getD ⟨∅⟩).clear nHeight))
    (fun v => TidyLists v.votes)
    (fun v k hv => hv.setUnless k ((hv k).clear nHeight))
    (fun v k k' hv hne => by
      refine (votesOf_setUnless v.votes k k' ((hv k).clear nHeight)).trans ?_
      rw [if_neg (Ne.symm hne)])
    (Map.nodup_keys view.votes) (s := view) hTidy
  obtain ⟨hNot, hVisited⟩ := hKeys.2 voter
  by_cases hMem : voter ∈ view.votes.keys
  · obtain ⟨mid, hMid, hSame, hEnd⟩ := hVisited hMem
    refine hEnd.trans ?_
    refine (votesOf_setUnless mid.votes voter voter ((hMid voter).clear nHeight)).trans ?_
    rw [if_pos rfl]
    exact congrArg (CVoteList.clear · nHeight) hSame
  · refine (hNot hMem).trans ?_
    rw [Map.mem_keys_iff, not_isSome_iff_eq_none] at hMem
    unfold votesOf
    rw [hMem]
    exact (CVoteList.clear_of_none (by simp)).symm

/-! ## Reached states -/

variable {fund : Fund} {block : CBlock} {ok : ChainState → CBlock → CBlockIndex → Prop}
  {st st' : ChainState}

/-- `VoteStep` does not touch the lists. -/
theorem StepRun.votes {s : StepContext} {fCFund fDAOConsultations : Bool} {c : VoteCache}
    {fund' : Fund} {view' : CStateView}
    (run : StepRun s fCFund fDAOConsultations c fund view fund' view')
    (hs : s.pindexDelete = none) (hSolid : Solid view) : view'.votes = view.votes := by
  have hCounted := (run.counted_countsOnly hs hSolid).votes
  have hDecided := congrArg CStateView.votes (run.decided_frame hs hSolid).1
  have hChanged := congrArg CStateView.votes (run.changed_frame hs hSolid).1
  have hRestarted := (run.restarted_countsOnly hs hSolid).votes
  have hResult := congrArg CStateView.votes run.result_frame
  exact hResult.trans (hRestarted.trans (hChanged.trans (hDecided.trans hCounted)))

/-- What a run keeps: the state is sane, and no vote lies above the tip. -/
structure VotesInv (node : Node) (st : ChainState) : Prop extends Sane node st where
  lists : ListsBelow (tipHeight st.chain) st.view.votes

theorem votesInv_genesis (node : Node) (genesis : CBlockIndex) :
    VotesInv node (.genesis genesis) := by
  refine { sane_genesis node genesis with lists := ⟨?_, ?_, ?_⟩ }
  · intro voter v hv
    simp [ChainState.genesis, CStateView.empty] at hv
  · intro voter
    exact CVoteList.tidy_empty
  · simp [ChainState.genesis, CStateView.empty, votesOf]

/-- **Step.** -/
theorem votesInv_step (hInv : VotesInv node st) (hStep : TipStep node ok st st') :
    VotesInv node st' := by
  refine { sane_step hInv.toSane hStep with lists := ?_ }
  obtain ⟨block, pindex, hExt, -, hConnect⟩ := hStep
  unfold connectTip at hConnect
  split at hConnect
  case h_1 =>
    cases hConnect
    exact hInv.lists
  case h_2 r hBlock =>
    rw [map_eq_some_iff] at hConnect
    obtain ⟨v, hVote, rfl⟩ := hConnect
    obtain ⟨run, hPaid⟩ := connected_run hExt.hashes hBlock hVote
    have hStepVotes := run.run.votes rfl (run.paid_solid hInv.toSane)
    obtain ⟨cast, hCast⟩ : ∃ cast : List CastVote,
        r.view.votes = cast.foldl (writeVote pindex.nHeight) st.view.votes := by
      rcases (connectBlock_ok hBlock).2 with ⟨-, rfl⟩ | ⟨-, ⟨made⟩⟩
      · exact ⟨[], rfl⟩
      · exact ⟨_, made.votes⟩
    have hHeight := hExt.height
    show ListsBelow pindex.nHeight v.1.votes
    rw [hStepVotes, hPaid, hCast]
    exact hInv.lists.written (by omega) cast

/-- **Run.** -/
theorem votesInv_run (hInv : VotesInv node st) (hRun : ChainRun node ok st st') :
    VotesInv node st' :=
  run_invariant hRun hInv fun _ _ hs hStep => votesInv_step hs hStep

/-- The votes that the block `pindex` casts on a chain. -/
def ChainState.castVotes (node : Node) (block : CBlock) (pindex : CBlockIndex)
    (st : ChainState) : List CastVote :=
  Electrum.castVotes
    (connectContext node block pindex st.chain ((stakerScriptOf node block).getD [])) st.view

section Restored

variable {node : Node} {block : CBlock} {pindex : CBlockIndex} {st : ChainState}

/-- The lists once a block is connected. -/
theorem connected_votes (hInv : VotesInv node st) (hExt : Extends node st.chain block pindex)
    (hGenesis : block.hash ≠ node.params.genesis.hash) {r : Connected}
    (hConnect : connectBlock node block pindex st.chain st.fund st.recorded st.view = .ok r)
    {v : CStateView × Fund × VoteCache}
    (hVote : voteStep node.toEnv r.recorded (pindex :: st.chain) false r.fund r.view st.cache =
      some v) :
    v.1.votes =
      (st.castVotes node block pindex).foldl (writeVote pindex.nHeight) st.view.votes := by
  obtain ⟨run, hPaid⟩ := connected_run hExt.hashes hConnect hVote
  obtain ⟨cr⟩ := ((connectBlock_ok hConnect).2.resolve_left fun h => hGenesis h.1).2
  have hStep : v.1.votes = run.paid.votes := run.run.votes rfl (run.paid_solid hInv.toSane)
  rw [hStep, hPaid, cr.votes, ChainState.castVotes, cr.staker, getD_some]

/-- The lists once a block is disconnected. -/
theorem disconnectBlock_votes {recorded : RecordedVotes} {vtxundo : List (List CTxInUndo)}
    {pprev : Chain} {view view' : CStateView} {fClean : Bool}
    (hTidy : TidyLists view.votes)
    (h : disconnectBlock node block pindex pprev recorded vtxundo view = some (fClean, view'))
    (voter : List UInt8) :
    votesOf view'.votes voter = if clearsVotes node block pindex pprev then
      (votesOf view.votes voter).clear pindex.nHeight else votesOf view.votes voter := by
  obtain ⟨mid, hMid, hEnd⟩ := disconnectBlock_lists h
  rw [hEnd, clearParameters_frame]
  split
  · rw [← hMid.votes] at hTidy
    exact (votesOf_clearVotes pindex.nHeight hTidy voter).trans (by rw [hMid.votes])
  · exact congrArg (votesOf · voter) hMid.votes

/-- **Restored lists.** In every reached state, a block that is connected and disconnected leaves
every list as it was exactly if `DisconnectBlock` clears its height, or every vote that the block
casts repeats what the voter's list says already. -/
theorem voterLists_restored_iff {ok : ChainState → CBlock → CBlockIndex → Prop}
    {start : ChainState} (hStart : VotesInv node start) (hRun : ChainRun node ok start st)
    (hExt : Extends node st.chain block pindex)
    (hGenesis : block.hash ≠ node.params.genesis.hash) {r : Connected}
    (hConnect : connectBlock node block pindex st.chain st.fund st.recorded st.view = .ok r)
    {v : CStateView × Fund × VoteCache}
    (hVote : voteStep node.toEnv r.recorded (pindex :: st.chain) false r.fund r.view st.cache =
      some v) (recorded : RecordedVotes) :
    ∃ fClean view', disconnectBlock node block pindex st.chain recorded r.vtxundo v.1 =
        some (fClean, view') ∧
      ((∀ voter, votesOf view'.votes voter = votesOf st.view.votes voter) ↔
        clearsVotes node block pindex st.chain = true ∨
          ∀ c ∈ st.castVotes node block pindex,
            (votesOf st.view.votes c.voter).get c.hash = some c.vote) := by
  have hInv := votesInv_run hStart hRun
  have hHeight := hExt.height
  have hAbove := hExt.above
  have hWritten := connected_votes hInv hExt hGenesis hConnect hVote
  obtain ⟨⟨fClean, view'⟩, hDisconnect⟩ := disconnectBlock_connected hConnect hGenesis recorded v.1
  refine ⟨fClean, view', hDisconnect, ?_⟩
  -- `disconnectBlock` erases what stands at the height of the block, or leaves all
  have hTidy : TidyLists v.1.votes := by
    rw [hWritten]
    exact hInv.lists.tidy.written _
  have hEnd := disconnectBlock_votes hTidy hDisconnect
  cases hClears : clearsVotes node block pindex st.chain with
  | true =>
    refine ⟨fun _ => .inl rfl, fun _ voter => ?_⟩
    rw [hEnd, hClears, hWritten]
    exact clear_written hInv.lists.tidy _ voter (hInv.lists.below voter pindex.nHeight hAbove)
  | false =>
    rw [← written_same_iff hInv.lists hAbove, or_iff_right Bool.false_ne_true]
    refine forall_congr' fun voter => ?_
    rw [hEnd, hClears, if_neg Bool.false_ne_true, hWritten]

end Restored

/-! ## Two blocks with a light wallet's vote -/

/-- A light wallet's vote for the proposal. -/
def lightVote : CTransaction :=
  ⟨2008, CTransaction.VOTE_VERSION, 8, [⟨⟨2007, 2⟩⟩], [⟨10000000, [OP_RETURN, OP_CFUND]⟩,
      ⟨0, [OP_RETURN, OP_CFUND, OP_PROP, OP_YES, 0x20, 0xd7, 0x07] ++ List.replicate 30 0⟩],
    ""⟩

/-- The vote in a proof-of-work block. -/
def minedVote : CBlock := devBlock 8 [] [lightVote]

/-- The vote in a proof-of-stake block. -/
def stakedVote : CBlock :=
  devBlock 8 [] [⟨2009, 1, 8, [⟨⟨2007, 1⟩⟩], [⟨0, []⟩, ⟨500 * COIN, voterScript⟩], ""⟩, lightVote]

/-- A node that knows the seven blocks and one more. -/
def voteNode (block : CBlock) : Node := .developing (voteChain ++ [block])
  [("proposal", .vobj
    [("n", .vnum "100"), ("a", .vstr "A"), ("d", .vnum "1000"), ("s", .vstr "text")])]

/-- The height, the proposal and the vote in the list of the voter. -/
def lightVotes (view : CStateView) : List (Nat × List (UInt256 × Int)) :=
  (votesOf view.votes (CScript.getStakerScript voterScript)).list.toList.map fun it =>
    (it.1, it.2.toList)

/-- The staked vote is taken back. -/
theorem voterLists_restored_stakedVote : ∃ st r v,
    connectAll (voteNode stakedVote) voteChain (.genesis devParams.genesisIndex) = some st ∧
    connectBlock (voteNode stakedVote) stakedVote (childIndex st.chain stakedVote) st.chain st.fund
      st.recorded st.view = .ok r ∧
    voteStep (voteNode stakedVote).toEnv r.recorded (childIndex st.chain stakedVote :: st.chain)
      false r.fund r.view st.cache = some v ∧ lightVotes v.1 = [(8, [(2007, VOTE_YES)])] ∧
    ∃ fClean view', disconnectBlock (voteNode stakedVote) stakedVote
        (childIndex st.chain stakedVote) st.chain r.recorded r.vtxundo v.1 =
          some (fClean, view') ∧
      ∀ voter, votesOf view'.votes voter = votesOf st.view.votes voter := by
  obtain ⟨st, hAll, hExt, r, hConnect, v, hVote, hLight⟩ : ∃ st,
      connectAll (voteNode stakedVote) voteChain (.genesis devParams.genesisIndex) = some st ∧
      Extends (voteNode stakedVote) st.chain stakedVote (childIndex st.chain stakedVote) ∧ ∃ r,
      connectBlock (voteNode stakedVote) stakedVote (childIndex st.chain stakedVote) st.chain st.fund
        st.recorded st.view = .ok r ∧ ∃ v,
      voteStep (voteNode stakedVote).toEnv r.recorded (childIndex st.chain stakedVote :: st.chain)
        false r.fund r.view st.cache = some v ∧ lightVotes v.1 = [(8, [(2007, VOTE_YES)])] := by
    decide +kernel
  refine ⟨st, r, v, hAll, hConnect, hVote, hLight, ?_⟩
  obtain ⟨fClean, view', hDisconnect, hIff⟩ := voterLists_restored_iff
    (votesInv_genesis _ _) (connectAll_run hAll) hExt (by decide) hConnect hVote r.recorded
  exact ⟨fClean, view', hDisconnect, hIff.mpr (.inl rfl)⟩

/-- The mined vote stays. -/
theorem voterLists_kept_minedVote : ∃ st r v fClean view',
    connectAll (voteNode minedVote) voteChain (.genesis devParams.genesisIndex) = some st ∧
    connectBlock (voteNode minedVote) minedVote (childIndex st.chain minedVote) st.chain st.fund
      st.recorded st.view = .ok r ∧
    voteStep (voteNode minedVote).toEnv r.recorded (childIndex st.chain minedVote :: st.chain)
      false r.fund r.view st.cache = some v ∧
    disconnectBlock (voteNode minedVote) minedVote (childIndex st.chain minedVote) st.chain
      r.recorded r.vtxundo v.1 = some (fClean, view') ∧
    lightVotes st.view = [] ∧ lightVotes view' = [(8, [(2007, VOTE_YES)])] := by
  simp only [exists_and_left]
  decide +kernel

end Electrum
