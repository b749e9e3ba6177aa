import Electrum.Dao.StepBare
import Electrum.Validation.Chain
import Electrum.Validation.DisconnectFrame

/-!
# Connecting and disconnecting

`DisconnectTip` takes the tip back: `DisconnectBlock`, and then `VoteStep` with `fUndo` set.  A
reorganisation is any sequence of blocks connected and disconnected.  Nothing here assumes that
the block and the undo data read for the tip are those with which it was connected.

Main results:
* `disconnectBlock_shrinks` — disconnecting removes objects, answers only with their consultation
* `clearParameters_entries` — no parameter gets a value
-/

namespace Electrum

open List Option CStateView

/-- `DisconnectTip`; `fund` is what the index entry of the previous block records. -/
def disconnectTip (node : Node) (block : CBlock) (vtxundo : List (List CTxInUndo)) (fund : Fund)
    (st : ChainState) : Option ChainState :=
  match st.chain with
  | [] => none
  | pindex :: pprev => do
    let (_, view) ← disconnectBlock node block pindex pprev st.recorded vtxundo st.view
    let v ← voteStep node.toEnv st.recorded (pindex :: pprev) true fund view st.cache
    return ⟨pprev, v.1, v.2.1, st.recorded, v.2.2⟩

/-- One block is connected, or rejected, or the tip is disconnected. -/
def ReorgStep (node : Node) (st st' : ChainState) : Prop :=
  (∃ block pindex, Extends node st.chain block pindex ∧
    connectTip node block pindex st = some st') ∨
  ∃ block vtxundo fund, disconnectTip node block vtxundo fund st = some st'

/-- The states that connecting and disconnecting blocks leads to. -/
def ReorgRun (node : Node) : ChainState → ChainState → Prop :=
  Relation.ReflTransGen (ReorgStep node)

variable {node : Node} {view view' : CStateView} {pindex : CBlockIndex} {pprev : Chain}

/-! ## Connecting -/

/-- New objects are not null when bare. -/
theorem Grows.firm {block : UInt256} (h : Grows block view view')
    (hFirm : Firm view) : Firm view' := by
  refine ⟨?_, ?_, ?_, ?_⟩
  · intro hash p hp
    rcases h.newProposals hash p hp with hOld | hNew
    · exact hFirm.proposals hash p hOld
    · have hSolid := hNew.solid
      unfold CProposal.bare
      rw [← hNew.stateless]
      exact hSolid
  · intro hash r hr
    rcases h.newRequests hash r hr with hOld | ⟨hNew, -⟩
    · exact hFirm.paymentRequests hash r hOld
    · have hSolid := hNew.solid
      unfold CPaymentRequest.bare
      rw [← hNew.stateless]
      exact hSolid
  · intro hash c hc
    rcases h.newConsultations hash c hc with ⟨d, hd, hcd⟩ | hNew
    · rw [hcd]
      exact hFirm.consultations hash d hd
    · rw [hNew.keyed]
      exact hNew.solid
  · intro hash a ha
    rcases h.newAnswers hash a ha with hOld | ⟨hNew, -⟩
    · exact hFirm.answers hash a hOld
    · have hSolid := hNew.solid
      unfold CConsultationAnswer.bare
      rw [← hNew.stateless]
      exact hSolid

/-- Payouts change states only. -/
theorem PaysOut.firm {listed : List UInt256} (h : PaysOut node pindex pprev listed view view')
    (hFirm : Firm view) : Firm view' := by
  refine ⟨?_, ?_, ?_, ?_⟩
  · rw [h.frame]
    exact hFirm.proposals
  · intro hash r' hr'
    obtain ⟨r, hr, rfl | rfl⟩ := h.request_back hr'
    · exact hFirm.paymentRequests hash r' hr
    · exact hFirm.paymentRequests hash r hr
  · rw [h.frame]
    exact hFirm.consultations
  · rw [h.frame]
    exact hFirm.answers

/-- The parameters do not count. -/
theorem Firm.setParameters (h : Firm view) (height : Nat)
    (changes : Map Nat Nat) : Firm (setParameters height changes view) := by
  rw [(setParameters_spec height changes view).1]
  exact ⟨h.proposals, h.paymentRequests, h.consultations, h.answers⟩

/-! ## Disconnecting -/

/-- The objects of the second view are, up to the answers that consultations list, objects of the
first. -/
structure Shrinks (view view' : CStateView) : Prop where
  proposals : ∀ hash p, view'.getProposal hash = some p → view.getProposal hash = some p
  paymentRequests : ∀ hash r, view'.getPaymentRequest hash = some r →
    view.getPaymentRequest hash = some r
  consultations : ∀ hash c, view'.getConsultation hash = some c →
    ∃ d, view.getConsultation hash = some d ∧ c = { d with vAnswers := c.vAnswers } ∧
      c.vAnswers ⊆ d.vAnswers
  answers : ∀ hash a, view'.getConsultationAnswer hash = some a →
    view.getConsultationAnswer hash = some a

namespace Shrinks

theorem refl (view : CStateView) : Shrinks view view :=
  ⟨fun _ _ h => h, fun _ _ h => h, fun _ c h => ⟨c, h, rfl, fun _ hx => hx⟩, fun _ _ h => h⟩

theorem trans {u v w : CStateView} (h : Shrinks u v) (h' : Shrinks v w) : Shrinks u w where
  proposals hash p hp := h.proposals hash p (h'.proposals hash p hp)
  paymentRequests hash r hr := h.paymentRequests hash r (h'.paymentRequests hash r hr)
  consultations hash c hc := by
    obtain ⟨d, hd, hcd, hSub⟩ := h'.consultations hash c hc
    obtain ⟨e, he, hde, hSub'⟩ := h.consultations hash d hd
    refine ⟨e, he, ?_, fun x hx => hSub' (hSub hx)⟩
    rw [hcd, hde]
  answers hash a ha := h.answers hash a (h'.answers hash a ha)

theorem firm {view view' : CStateView} (h : Shrinks view view') (hFirm : Firm view) :
    Firm view' := by
  refine ⟨fun hash p hp => hFirm.proposals hash p (h.proposals hash p hp),
    fun hash r hr => hFirm.paymentRequests hash r (h.paymentRequests hash r hr), ?_,
    fun hash a ha => hFirm.answers hash a (h.answers hash a ha)⟩
  intro hash c hc
  obtain ⟨d, hd, hcd, -⟩ := h.consultations hash c hc
  rw [hcd]
  exact hFirm.consultations hash d hd

end Shrinks

/-- Every answer is listed by a consultation that is there. -/
def Parented (view : CStateView) : Prop :=
  ∀ hash a, view.getConsultationAnswer hash = some a →
    ∃ c, view.getConsultation a.parent = some c ∧ hash ∈ c.vAnswers

theorem eraseAnswer_subset (cid : UInt256) (l : List UInt256) : eraseAnswer cid l ⊆ l := by
  induction l using eraseAnswer.induct cid with
  | case1 => exact fun _ hx => hx
  | case2 x h =>
    rw [eraseAnswer, if_pos h]
    exact nil_subset _
  | case3 x h =>
    rw [eraseAnswer, if_neg h]
    exact fun _ hx => hx
  | case4 x y rest h ih =>
    rw [eraseAnswer, if_pos h]
    intro k hk
    rcases mem_cons.mp hk with rfl | hRest
    · simp
    · exact mem_cons_of_mem _ (mem_cons_of_mem _ (ih hRest))
  | case5 x y rest h ih =>
    rw [eraseAnswer, if_neg h]
    intro k hk
    rcases mem_cons.mp hk with rfl | hRest
    · simp
    · exact mem_cons_of_mem _ (ih hRest)

/-- Other entries stay listed. -/
theorem mem_eraseAnswer {cid k : UInt256} {l : List UInt256} (hne : k ≠ cid) (hk : k ∈ l) :
    k ∈ eraseAnswer cid l := by
  induction l using eraseAnswer.induct cid with
  | case1 => exact hk
  | case2 x h =>
    rw [mem_singleton] at hk
    rw [beq_iff_eq] at h
    exact absurd (hk.trans h) hne
  | case3 x h =>
    rw [eraseAnswer, if_neg h]
    exact hk
  | case4 x y rest h ih =>
    rw [eraseAnswer, if_pos h]
    rw [beq_iff_eq] at h
    rcases mem_cons.mp hk with rfl | hk
    · exact absurd h hne
    · rcases mem_cons.mp hk with rfl | hRest
      · simp
      · exact mem_cons_of_mem _ (ih hRest)
  | case5 x y rest h ih =>
    rw [eraseAnswer, if_neg h]
    rcases mem_cons.mp hk with rfl | hRest
    · simp
    · exact mem_cons_of_mem _ (ih hRest)

/-- What is left after an answer is removed. -/
theorem removeConsultationAnswer_shrinks (hFirm : Firm view)
    (hParented : Parented view) (cid : UInt256) :
    Shrinks view (view.removeConsultationAnswer cid) ∧
      Parented (view.removeConsultationAnswer cid) ∧
      (view.removeConsultationAnswer cid).getConsultationAnswer cid = none := by
  unfold removeConsultationAnswer
  split
  case h_1 hNone => exact ⟨.refl view, hParented, hNone⟩
  case h_2 a ha =>
    obtain ⟨parent, hParent, -⟩ := hParented cid a ha
    rw [hParent]
    have hNull : ({ parent with vAnswers := eraseAnswer cid parent.vAnswers } :
        CConsultation).isNull = false :=
      CConsultation.notNull_of_hash (hFirm.consultations a.parent parent hParent)
    have hSet : ∀ k, (view.setConsultation a.parent { parent with
        vAnswers := eraseAnswer cid parent.vAnswers }).getConsultation k =
        if a.parent = k then some { parent with
          vAnswers := eraseAnswer cid parent.vAnswers } else view.getConsultation k :=
      fun k => getConsultation_set hNull k
    have hErase : ∀ k : UInt256, (view.answers.erase cid)[k]? =
        if cid = k then none else view.answers[k]? := by
      simp [Std.ExtTreeMap.getElem?_erase]
    refine ⟨⟨fun _ _ h => h, fun _ _ h => h, ?_, ?_⟩, ?_, ?_⟩
    · intro hash c hc
      have hc := (hSet hash).symm.trans hc
      split at hc
      case isTrue hEq =>
        cases hc
        exact ⟨parent, hEq ▸ hParent, rfl, eraseAnswer_subset cid _⟩
      case isFalse => exact ⟨c, hc, rfl, fun _ hx => hx⟩
    · intro hash b hb
      have hb := (hErase hash).symm.trans hb
      split at hb
      · cases hb
      · exact hb
    · intro hash b hb
      have hb := (hErase hash).symm.trans hb
      split at hb
      case isTrue => cases hb
      case isFalse hne =>
        obtain ⟨c, hc, hListed⟩ := hParented hash b hb
        by_cases hSame : a.parent = b.parent
        · refine ⟨_, (hSet b.parent).trans (if_pos hSame), ?_⟩
          rw [← hSame, hParent] at hc
          cases hc
          exact mem_eraseAnswer (Ne.symm hne) hListed
        · exact ⟨c, (hSet b.parent).trans ((if_neg hSame).trans hc), hListed⟩
    · exact (hErase cid).trans (if_pos rfl)

/-- A consultation is removed with its answers. -/
theorem removeConsultation_shrinks (hFirm : Firm view) (hParented : Parented view) (cid : UInt256) :
    Shrinks view (view.removeConsultation cid) ∧ Parented (view.removeConsultation cid) := by
  unfold removeConsultation
  split
  case h_1 => exact ⟨.refl view, hParented⟩
  case h_2 c hc =>
    have hLoop := foldl_invariant
      (fun done v => Shrinks view v ∧ Parented v ∧ ∀ k ∈ done, v.getConsultationAnswer k = none)
      c.vAnswers (b := view) (f := removeConsultationAnswer)
      ⟨.refl view, hParented, fun _ hk => (not_mem_nil hk).elim⟩ ?_
    · obtain ⟨hShrinks, hParented', hGone⟩ := hLoop
      generalize c.vAnswers.foldl removeConsultationAnswer view = v
        at hShrinks hParented' hGone ⊢
      have hErase : ∀ k : UInt256, (v.consultations.erase cid)[k]? =
          if cid = k then none else v.consultations[k]? := by
        simp [Std.ExtTreeMap.getElem?_erase]
      refine ⟨hShrinks.trans ⟨fun _ _ h => h, fun _ _ h => h, ?_, fun _ _ h => h⟩, ?_⟩
      · intro hash d hd
        have hd := (hErase hash).symm.trans hd
        split at hd
        · cases hd
        · exact ⟨d, hd, rfl, fun _ hx => hx⟩
      · intro hash b hb
        obtain ⟨d, hd, hListed⟩ := hParented' hash b hb
        refine ⟨d, (hErase b.parent).trans ((if_neg fun hEq => ?_).trans hd), hListed⟩
        -- an answer of the removed consultation would have been removed
        obtain ⟨e, he, -, hSub⟩ := hShrinks.consultations b.parent d hd
        rw [← hEq, hc] at he
        cases he
        have hNone := hGone hash (hSub hListed)
        rw [show v.getConsultationAnswer hash = some b from hb] at hNone
        cases hNone
    · intro done k rest v _ hP
      obtain ⟨hShrinks, hParented', hGone⟩ := hP
      obtain ⟨hStep, hStepParented, hStepGone⟩ :=
        removeConsultationAnswer_shrinks (hShrinks.firm hFirm) hParented' k
      refine ⟨hShrinks.trans hStep, hStepParented, fun j hj => ?_⟩
      rw [mem_append, mem_singleton] at hj
      rcases hj with hDone | rfl
      · cases hAnswer : (v.removeConsultationAnswer k).getConsultationAnswer j with
        | none => rfl
        | some a =>
          have hBack := hStep.answers j a hAnswer
          rw [hGone j hDone] at hBack
          cases hBack
      · exact hStepGone

/-- The object of a transaction goes, and an answer goes out of its consultation's list. -/
theorem removeObject_shrinks (node : Node) (blockhash : UInt256) (fCFund fDAOConsultations : Bool)
    (tx : CTransaction) (hFirm : Firm view) (hParented : Parented view) :
    Shrinks view (removeObject node blockhash fCFund fDAOConsultations tx view) ∧
      Parented (removeObject node blockhash fCFund fDAOConsultations tx view) := by
  unfold removeObject
  split
  · refine ⟨{ Shrinks.refl view with proposals := ?_ }, hParented⟩
    intro hash p hp
    have hErase : (view.proposals.erase tx.hash)[hash]? = some p := hp
    rw [Std.ExtTreeMap.getElem?_erase] at hErase
    split at hErase
    · cases hErase
    · exact hErase
  · split
    · refine ⟨{ Shrinks.refl view with paymentRequests := ?_ }, hParented⟩
      intro hash r hr
      have hErase : (view.paymentRequests.erase tx.hash)[hash]? = some r := hr
      rw [Std.ExtTreeMap.getElem?_erase] at hErase
      split at hErase
      · cases hErase
      · exact hErase
    · split
      · exact removeConsultation_shrinks hFirm hParented tx.hash
      · split
        · split
          · obtain ⟨hShrinks, hParented', -⟩ := removeConsultationAnswer_shrinks hFirm hParented _
            exact ⟨hShrinks, hParented'⟩
          · exact ⟨.refl view, hParented⟩
        · exact ⟨.refl view, hParented⟩

variable {block : CBlock} {recorded : RecordedVotes}

theorem disconnectSteps_shrinks {l : List (CTransaction × Option (List CTxInUndo))}
    {st st' : Bool × CStateView} (hFirm : Firm st.2) (hParented : Parented st.2)
    (h : l.foldrM (disconnectStep node block pindex pprev) st = some st') :
    Shrinks st.2 st'.2 ∧ Parented st'.2 := by
  induction l generalizing st' with
  | nil =>
    cases h
    exact ⟨.refl _, hParented⟩
  | cons it rest ih =>
    rw [foldrM_cons, bind_eq_bind, bind_eq_some_iff] at h
    obtain ⟨mid, hRest, hStep⟩ := h
    obtain ⟨hShrinks, hMid⟩ := ih hRest
    obtain ⟨hRemoved, hLeft⟩ := removeObject_shrinks node block.hash
      (node.isActive .communityFund pprev) (node.isActive .consultations pprev) it.1
      (hShrinks.firm hFirm) hMid
    have hFrame := disconnectTx_frame hStep
    rw [hFrame]
    exact ⟨hShrinks.trans (hRemoved.trans ⟨fun _ _ h => h, fun _ _ h => h,
      fun _ c h => ⟨c, h, rfl, fun _ hx => hx⟩, fun _ _ h => h⟩), hLeft⟩

theorem undoProposalVote_writes (st : CStateView × List UInt256) (it : UInt256 × Int) :
    Writes Edit.keepsBare st.1 (undoProposalVote st it).1 := by
  unfold undoProposalVote
  split
  case h_1 => exact .refl _
  case h_2 p hp =>
    split
    · exact .refl _
    · refine .single (.proposal hp ?_)
      unfold CProposal.uncountVote
      repeat' split
      all_goals rfl

theorem undoPaymentRequestVote_writes (st : CStateView × List UInt256) (it : UInt256 × Int) :
    Writes Edit.keepsBare st.1 (undoPaymentRequestVote st it).1 := by
  unfold undoPaymentRequestVote
  split
  case h_1 => exact .refl _
  case h_2 r hr =>
    split
    · exact .refl _
    · refine .single (.paymentRequest hr ?_)
      unfold CPaymentRequest.uncountVote
      repeat' split
      all_goals rfl

theorem undoSupport_writes (st : CStateView × List UInt256) (hash : UInt256) :
    Writes Edit.keepsBare st.1 (undoSupport st hash).1 := by
  unfold undoSupport
  split
  · exact .refl _
  · split
    case h_1 c hc => exact .single (.consultation hc rfl)
    case h_2 =>
      split
      case h_1 a ha => exact .single (.answer ha rfl)
      case h_2 => exact .refl _

theorem undoConsultationVote_writes (view : CStateView) (hash : UInt256) (vote : Nat) :
    Writes Edit.keepsBare view (undoConsultationVote view hash vote) := by
  unfold undoConsultationVote
  split
  case h_1 c hc => exact .single (.consultation hc rfl)
  case h_2 =>
    split
    case h_1 a ha =>
      refine .single (.answer ha ?_)
      simp only [Edit.keepsBare, CConsultationAnswer.bare, CConsultationAnswer.core]
    case h_2 => exact .refl _

/-- Taking votes back touches counters only. -/
theorem undoRecordedVotes_bare {blockhash : UInt256} (hFirm : Firm view) :
    SameBare view (undoRecordedVotes recorded blockhash view) := by
  have hProposals := Writes.foldl Prod.fst undoProposalVote_writes
    (recorded.vProposalVotes[blockhash]?.getD []) (view, [])
  have hRequests := hProposals.trans (.foldl Prod.fst undoPaymentRequestVote_writes
    (recorded.vPaymentRequestVotes[blockhash]?.getD []) _)
  have hSupport := hRequests.trans (.foldl Prod.fst undoSupport_writes
    (recorded.mapSupport[blockhash]?.getD ∅).keys _)
  exact (hSupport.trans (.foldlMap id undoConsultationVote_writes _ _)).sameBare hFirm

/-- **Objects.** Disconnecting removes objects and takes votes off the counters. -/
theorem disconnectBlock_shrinks {vtxundo : List (List CTxInUndo)}
    {fClean : Bool} (hFirm : Firm view) (hParented : Parented view)
    (h : disconnectBlock node block pindex pprev recorded vtxundo view = some (fClean, view')) :
    ∃ left counted, Shrinks view left ∧ Parented left ∧ SameBare left counted ∧
      view' = { counted with votes := view'.votes, consensus := view'.consensus } := by
  dsimp only [disconnectBlock] at h
  split at h
  · cases h
  · rw [bind_eq_bind, bind_eq_some_iff] at h
    obtain ⟨⟨fClean', left⟩, hLoop, h⟩ := h
    cases h
    obtain ⟨hShrinks, hLeft⟩ := disconnectSteps_shrinks hFirm hParented hLoop
    refine ⟨left, undoRecordedVotes recorded block.hash left, hShrinks, hLeft,
      undoRecordedVotes_bare (hShrinks.firm hFirm), ?_⟩
    have hVotes : ∀ (b : Bool) (w : CStateView), (if b then clearVotes pindex.nHeight w else w) =
        { w with votes := (if b then clearVotes pindex.nHeight w else w).votes } := by
      intro b w
      cases b with
      | false => rfl
      | true => exact clearVotes_frame pindex.nHeight w
    have hCleared := hVotes (clearsVotes node block pindex pprev)
      (undoRecordedVotes recorded block.hash left)
    generalize (if clearsVotes node block pindex pprev = true then clearVotes pindex.nHeight
      (undoRecordedVotes recorded block.hash left) else undoRecordedVotes recorded block.hash left)
      = cleared at hCleared ⊢
    have hParameters := clearParameters_frame pindex.nHeight cleared
    rw [hParameters, hCleared]

/-- **Parameters.** Disconnecting drops values of parameters and adds none. -/
theorem clearParameters_entries {nHeight : Nat} {i : Nat}
    {p : CConsensusParameter} (h : (clearParameters nHeight view).consensus[i]? = some p)
    {height value : Nat} (hValue : p.list[height]? = some value) :
    ∃ q, view.consensus[i]? = some q ∧ q.list[height]? = some value := by
  have hInv := foldl_invariant
    (fun _ (v : CStateView) => ∀ (p : CConsensusParameter), v.consensus[i]? = some p →
      ∀ height value : Nat, p.list[height]? = some value →
        ∃ q : CConsensusParameter, view.consensus[i]? = some q ∧ q.list[height]? = some value)
    (range MAX_CONSENSUS_PARAMS) (b := view)
    (f := fun v i => v.modifyConsensusParameter i (·.clear nHeight))
    (fun p hp height value hv => ⟨p, hp, hv⟩) ?_
  · exact hInv p h height value hValue
  · intro done j rest v _ hP p hp height value hv
    change (Map.setUnless CConsensusParameter.isNull v.consensus j
      ((v.consensus[j]?.getD ⟨∅⟩).clear nHeight))[i]? = some p at hp
    rw [Map.getElem?_setUnless] at hp
    split at hp
    case isFalse => exact hP p hp height value hv
    case isTrue hEq =>
      subst hEq
      split at hp
      · cases hp
      · cases hp
        change ((v.consensus[j]?.getD ⟨∅⟩).list.erase nHeight)[height]? = some value at hv
        rw [Std.ExtTreeMap.getElem?_erase] at hv
        split at hv
        · cases hv
        · cases hOld : v.consensus[j]? with
          | none =>
            rw [hOld] at hv
            simp at hv
          | some q =>
            rw [hOld] at hv
            exact hP q hOld height value hv

end Electrum
