import Electrum.Validation.Reorg

/-!
# Parameters stay in range

A value for a parameter is checked as text, either with the consultation that lists it or with a
later answer; it is stored in the answer and parsed again when the vote passes.  `AnswersSuit` is
the invariant that carries the check through the life of the objects, over blocks that are
connected and disconnected.

Main results:
* `Created.suits` — a new answer about a parameter spells a value in its range
* `rangeInv_step` — connecting or disconnecting a block keeps every value in range
* `parameters_inRange` — so does any sequence of blocks
* `fundSplit_exact_iff` — the range in which a block's generation is split exactly
-/

namespace Electrum

open ConsensusParamsPos Option Bool

/-- The values of a type: numbers from 1 to 2^24, percentages with two decimals, amounts of coins,
and booleans. -/
def ConsensusParamType.InRange : ConsensusParamType → Nat → Prop
  | .typeNumber, value => 1 ≤ value ∧ value ≤ 2 ^ 24
  | .typePercent, value => value ≤ 10000
  | .type0AE, value => (value : Int) ≤ MAX_MONEY
  | .typeBool, value => value = 0 ∨ value = 1

/-- The validator's test is this range. -/
theorem ConsensusParamType.admits_iff (type : ConsensusParamType) (value : Nat) :
    type.admits value = true ↔ type.InRange value := by
  cases type <;> simp [admits, InRange, Nat.one_le_iff_ne_zero, Nat.pos_iff_ne_zero]

/-- An answer with the text suits the consultation: if it is about a parameter, the text spells a
value in the parameter's range. -/
def CConsultation.Suits (c : CConsultation) (text : String) : Prop :=
  c.isAboutConsensusParameter = true → ∃ pos z, ofIdx c.nMin = some pos ∧ stoll text = some z ∧
      pos.type.InRange (toU64 z)

variable {c : CConsultation} {text : String} {tx : CTransaction} {r : Connected}
  {vtxundo : List (List CTxInUndo)}

theorem CConsultation.Suits.of_same {d : CConsultation} (h : c.Suits text)
    (hVersion : d.nVersion = c.nVersion) (hMin : d.nMin = c.nMin) : d.Suits text := by
  unfold Suits isAboutConsensusParameter at h ⊢
  rw [hVersion, hMin]
  exact h

/-- Every answer is listed by its consultation and suits it. -/
def AnswersSuit (view : CStateView) : Prop :=
  ∀ hash a, view.getConsultationAnswer hash = some a →
    ∃ c, view.getConsultation a.parent = some c ∧ hash ∈ c.vAnswers ∧ c.Suits a.sAnswer

variable {view view' : CStateView} {chain pprev : Chain} {node : Node} {fund : Fund}
  {block : CBlock} {pindex : CBlockIndex} {recorded : RecordedVotes} {st st' : ChainState}

theorem AnswersSuit.parented (h : AnswersSuit view) : Parented view := by
  intro hash a ha
  obtain ⟨c, hc, hListed, -⟩ := h hash a ha
  exact ⟨c, hc, hListed⟩

/-! ## What the validators check -/

theorem isValidConsensusParameterProposal_inRange {env : Env} {pos : ConsensusParamsPos}
    (h : isValidConsensusParameterProposal env chain view pos text = true) :
    ∃ z, stoll text = some z ∧ pos.type.InRange (toU64 z) := by
  unfold isValidConsensusParameterProposal at h
  rw [and_eq_true] at h
  replace h := h.2
  split at h
  case h_1 => cases h
  case h_2 z hz =>
    simp only [and_eq_true] at h
    exact ⟨z, hz, (ConsensusParamType.admits_iff _ _).mp h.1.1.1.1⟩

/-- The first answers of a consultation suit it. -/
theorem isValidConsultation_suits {mask : Nat} {block : UInt256}
    {answers : List CConsultationAnswer}
    (hValid : isValidConsultation node chain view tx mask = true)
    (hTo : txToConsultation node pprev tx block = some (c, answers)) :
    ∀ a ∈ answers, c.Suits a.sAnswer := by
  simp only [txToConsultation, bind_eq_bind, bind_eq_some_iff] at hTo
  obtain ⟨metadata, hRead, text, -, nMin, hMin, nMax, hMax, nVersion, hVersion, hTo⟩ := hTo
  unfold isValidConsultation at hValid
  split at hValid
  case isTrue => cases hValid
  case isFalse =>
    rw [hRead] at hValid
    have hNum : (metadata.findValue "m").isNum = true := by
      cases hM : metadata.findValue "m" <;> rw [hM] at hMin <;> first | rfl | cases hMin
    dsimp only at hValid
    rw [if_pos hNum, hMin, hMax, hVersion] at hValid
    split at hValid
    case h_2 => cases hValid
    case h_1 nMin' nMax' question v hMin' hMax' _ hVersion' =>
      cases hMin'
      cases hVersion'
      simp only [and_eq_true] at hValid
      obtain ⟨⟨⟨⟨⟨⟨⟨hParameter, -⟩, -⟩, -⟩, -⟩, -⟩, -⟩, -⟩ := hValid
      intro a ha hAbout
      cases hTo
      -- the texts that were validated are those of the answers
      have hText : a.sAnswer ∈ answerTexts metadata := by
        split at ha
        · cases ha
        · obtain ⟨s, hs, rfl⟩ := List.mem_map.mp ha
          simpa using hs
      have hFlag : versionHas (toI32 nVersion) CConsultation.CONSENSUS_PARAMETER_VERSION = true := by
        rw [versionHas_toI32 nVersion (by decide)]
        exact hAbout
      rw [hFlag, Bool.not_true, Bool.false_or] at hParameter
      unfold isValidParameterConsultation at hParameter
      simp only [Bool.and_eq_true, decide_eq_true_eq] at hParameter
      obtain ⟨⟨-, hNonneg⟩, hPos⟩ := hParameter
      split at hPos
      case h_1 => cases hPos
      case h_2 pos hIdx =>
        rw [and_eq_true, List.all_eq_true] at hPos
        obtain ⟨z, hz, hRange⟩ :=
          isValidConsensusParameterProposal_inRange (hPos.2 a.sAnswer hText)
        refine ⟨pos, z, ?_, hz, hRange⟩
        have hLt : nMin.toNat < all.length :=
          (List.getElem?_eq_some_iff.mp hIdx).1
        have hSmall : all.length = 24 := rfl
        have hSame : toU64 nMin = nMin.toNat := by
          unfold toU64
          omega
        rw [hSame]
        exact hIdx

/-- A later answer suits its consultation. -/
theorem isValidConsultationAnswer_suits {block : UInt256} {a : CConsultationAnswer}
    (hValid : isValidConsultationAnswer node chain view tx = true)
    (hTo : txToConsultationAnswer node tx block = some a) :
    ∃ c, view.getConsultation a.parent = some c ∧ c.Suits a.sAnswer := by
  simp only [txToConsultationAnswer, bind_eq_bind, bind_eq_some_iff] at hTo
  obtain ⟨metadata, hRead, text, hText, hash, hHash, nVersion, hVersion, hTo⟩ := hTo
  cases hTo
  unfold isValidConsultationAnswer at hValid
  split at hValid
  case isTrue => cases hValid
  case isFalse =>
    rw [hRead] at hValid
    dsimp only at hValid
    rw [hText, hHash, hVersion] at hValid
    dsimp only at hValid
    split at hValid
    case h_1 => cases hValid
    case h_2 c hc =>
      refine ⟨c, hc, fun hAbout => ?_⟩
      simp only [and_eq_true] at hValid
      have hParameter := hValid.1.2
      rw [hAbout] at hParameter
      split at hParameter
      case h_1 => cases hParameter
      case h_2 pos hIdx =>
        obtain ⟨z, hz, hRange⟩ := isValidConsensusParameterProposal_inRange hParameter
        exact ⟨pos, z, hIdx, hz, hRange⟩

/-! ## New objects -/

section Create

variable {view : CStateView} {c : CConsultation}

/-- One more answer, which suits its consultation. -/
theorem AnswersSuit.addAnswer (hSuit : AnswersSuit view) {a : CConsultationAnswer}
    (hc : view.getConsultation a.parent = some c) (hHash : c.hash ≠ 0) (hText : c.Suits a.sAnswer) :
    AnswersSuit (view.addConsultationAnswer a) ∧
      ∀ k d, view.getConsultation k = some d → ∃ vAnswers,
        (view.addConsultationAnswer a).getConsultation k = some { d with vAnswers := vAnswers } := by
  unfold CStateView.addConsultationAnswer
  split
  case isTrue => exact ⟨hSuit, fun k d hd => ⟨d.vAnswers, hd⟩⟩
  case isFalse hFresh =>
    have hNone : view.answers[a.hash]? = none := by simpa using hFresh
    rw [hc, getD_some]
    have hNull : ({ c with vAnswers := c.vAnswers ++ [a.hash] } : CConsultation).isNull = false :=
      CConsultation.notNull_of_hash hHash
    have hSet : ∀ k, ((view.setConsultation a.parent { c with
        vAnswers := c.vAnswers ++ [a.hash] }).setConsultationAnswer a.hash a).getConsultation k =
          if a.parent = k then some { c with vAnswers := c.vAnswers ++ [a.hash] }
          else view.getConsultation k :=
      fun k => CStateView.getConsultation_set hNull k
    refine ⟨?_, fun k d hd => ?_⟩
    · intro hash b hb
      rcases (Map.getElem?_setUnless_new hNone hash b).mp hb with hOld | ⟨rfl, rfl, -⟩
      · obtain ⟨d, hd, hListed, hSuits⟩ := hSuit hash b hOld
        rw [hSet]
        by_cases hSame : a.parent = b.parent
        · rw [if_pos hSame]
          rw [← hSame, hc] at hd
          cases hd
          exact ⟨_, rfl, List.mem_append_left _ hListed, hSuits.of_same rfl rfl⟩
        · rw [if_neg hSame]
          exact ⟨d, hd, hListed, hSuits⟩
      · rw [hSet, if_pos rfl]
        exact ⟨_, rfl, by simp, hText.of_same rfl rfl⟩
    · rw [hSet]
      split
      case isTrue hEq =>
        rw [← hEq, hc] at hd
        cases hd
        exact ⟨_, rfl⟩
      case isFalse => exact ⟨d.vAnswers, hd⟩

/-- A new consultation with first answers that suit it. -/
theorem AnswersSuit.addConsultation (hSuit : AnswersSuit view)
    {answers : List CConsultationAnswer} (hHash : c.hash ≠ 0)
    (hAnswers : ∀ a ∈ answers, a.parent = c.hash ∧ c.Suits a.sAnswer) :
    AnswersSuit (view.addConsultationWithAnswers c answers) := by
  unfold CStateView.addConsultationWithAnswers
  split
  case isTrue => exact hSuit
  case isFalse hFresh =>
    have hNone : view.consultations[c.hash]? = none := by simpa using hFresh
    have hAdd : AnswersSuit (view.addConsultation c) ∧
        ∃ vAnswers, (view.addConsultation c).getConsultation c.hash =
          some { c with vAnswers := vAnswers } := by
      have hSet : ∀ k, (view.addConsultation c).getConsultation k =
          if c.hash = k then some c else view.getConsultation k := by
        intro k
        unfold CStateView.addConsultation
        rw [if_neg hFresh]
        exact CStateView.getConsultation_set (CConsultation.notNull_of_hash hHash) k
      refine ⟨?_, c.vAnswers, (hSet c.hash).trans (if_pos rfl)⟩
      intro hash b hb
      have hb : view.getConsultationAnswer hash = some b := by
        unfold CStateView.addConsultation at hb
        rw [if_neg hFresh] at hb
        exact hb
      obtain ⟨d, hd, hRest⟩ := hSuit hash b hb
      refine ⟨d, (hSet b.parent).trans ((if_neg fun hEq => ?_).trans hd), hRest⟩
      rw [← hEq] at hd
      rw [show view.getConsultation c.hash = none from hNone] at hd
      cases hd
    split
    · exact hAdd.1
    · refine (foldl_invariant
        (fun _ v => AnswersSuit v ∧ ∃ vAnswers, v.getConsultation c.hash =
          some { c with vAnswers := vAnswers }) answers
        (b := view.addConsultation c) hAdd ?_).1
      intro done a rest v hl hP
      obtain ⟨hV, vAnswers, hGet⟩ := hP
      obtain ⟨hParent, hText⟩ := hAnswers a (by rw [hl]; simp)
      have hGet' : v.getConsultation a.parent = some { c with vAnswers := vAnswers } := by
        rw [hParent]
        exact hGet
      obtain ⟨hStep, hKeep⟩ := hV.addAnswer hGet' hHash (hText.of_same rfl rfl)
      obtain ⟨vAnswers', hGet''⟩ := hKeep c.hash _ hGet
      exact ⟨hStep, vAnswers', hGet''⟩

/-- Objects of the fund do not count. -/
theorem AnswersSuit.of_same {view' : CStateView} (hSuit : AnswersSuit view)
    (hConsultations : view'.consultations = view.consultations)
    (hAnswers : view'.answers = view.answers) : AnswersSuit view' := by
  intro hash a ha
  unfold CStateView.getConsultationAnswer at ha
  rw [hAnswers] at ha
  obtain ⟨c, hc, hRest⟩ := hSuit hash a ha
  refine ⟨c, ?_, hRest⟩
  unfold CStateView.getConsultation
  rw [hConsultations]
  exact hc

/-- **New objects.** -/
theorem Created.suits {ctx : ConnectContext} {tx : CTransaction} {nProposalFee : Int}
    {view' : CStateView} (h : Created ctx tx nProposalFee view view') (hFirm : Firm view)
    (hTx : tx.hash ≠ 0) (hSuit : AnswersSuit view) : AnswersSuit view' := by
  cases h with
  | nothing => exact hSuit
  | proposal =>
    unfold CStateView.addProposal
    split
    · exact hSuit
    · exact hSuit.of_same rfl rfl
  | paymentRequest =>
    unfold CStateView.addPaymentRequest
    split
    · exact hSuit
    · exact hSuit.of_same rfl rfl
  | consultation _ hValid hTo =>
    obtain ⟨⟨hHash, -⟩, hAnswers⟩ := txToConsultation_new hTo
    refine hSuit.addConsultation (by rw [hHash]; exact hTx) fun a ha => ⟨?_, ?_⟩
    · rw [hHash]
      exact (hAnswers a ha).1
    · exact isValidConsultation_suits hValid hTo a ha
  | answer _ hValid hTo _ =>
    obtain ⟨c, hc, hText⟩ := isValidConsultationAnswer_suits hValid hTo
    exact (hSuit.addAnswer hc (hFirm.consultations _ c hc) hText).1

end Create

/-! ## Steps -/

/-- Every value that a parameter was set to is in its range. -/
def ValuesInRange (view : CStateView) : Prop :=
  ∀ (pos : ConsensusParamsPos) (p : CConsensusParameter), view.consensus[pos.idx]? = some p →
    ∀ height value : Nat, p.list[height]? = some value → pos.type.InRange value

/-- What connecting and disconnecting blocks keeps. -/
structure RangeInv (view : CStateView) : Prop where
  firm : Firm view
  answers : AnswersSuit view
  values : ValuesInRange view

theorem rangeInv_genesis (genesis : CBlockIndex) : RangeInv (ChainState.genesis genesis).view := by
  refine ⟨⟨?_, ?_, ?_, ?_⟩, ?_, ?_⟩ <;> intro hash x hx
  all_goals
    simp [ChainState.genesis, CStateView.empty, CStateView.getProposal,
      CStateView.getPaymentRequest, CStateView.getConsultation,
      CStateView.getConsultationAnswer] at hx

theorem AnswersSuit.bare (h : SameBare view view')
    (hSuit : AnswersSuit view) : AnswersSuit view' := by
  intro hash a ha
  obtain ⟨b, hb, hab⟩ := h.answer_back ha
  obtain ⟨c, hc, hListed, hText⟩ := hSuit hash b hb
  obtain ⟨d, hd, hcd⟩ := Map.core_of_some (h.consultations _).symm hc
  obtain ⟨hParent, hAnswer⟩ := CConsultationAnswer.of_bare hab
  obtain ⟨-, hVersion, hMin, hAnswers⟩ := CConsultation.of_bare hcd
  rw [hParent, hAnswer]
  exact ⟨d, hd, by rw [← hAnswers]; exact hListed, hText.of_same hVersion.symm hMin.symm⟩

/-- **VoteStep.** A parameter is set to a value that an answer spells, which is in range. -/
theorem StepRun.rangeInv {s : StepContext} {fCFund fDAOConsultations : Bool} {c : VoteCache}
    {fund' : Fund}
    (run : StepRun s fCFund fDAOConsultations c fund view fund' view') (hInv : RangeInv view) :
    RangeInv view' := by
  obtain ⟨hBare, hAsks⟩ := run.bare hInv.firm
  obtain ⟨hFrame, hEntries⟩ := setParameters_spec s.pindexNew.nHeight run.changes run.restarted
  rw [run.result]
  refine ⟨(hBare.firm hInv.firm).setParameters _ _, ?_, ?_⟩
  · exact (hInv.answers.bare hBare).of_same (by rw [hFrame]) (by rw [hFrame])
  · intro pos p hp height value hv
    rw [hEntries, hBare.consensus] at hp
    split at hp
    case h_1 => exact hInv.values pos p hp height value hv
    case h_2 new hNew =>
      cases hp
      change ((run.restarted.history pos.idx).list.insert s.pindexNew.nHeight new)[height]? =
        some value at hv
      rw [Std.ExtTreeMap.getElem?_insert] at hv
      split at hv
      case isTrue =>
        -- the value of an answer to a consultation about this parameter
        cases hv
        obtain ⟨hash, a, c, z, ha, hc, hAbout, hMin, hText, rfl⟩ := hAsks pos.idx value hNew
        obtain ⟨c', hc', -, hSuits⟩ := hInv.answers hash a ha
        rw [hc] at hc'
        cases hc'
        obtain ⟨pos', z', hIdx, hText', hRange⟩ := hSuits hAbout
        rw [hMin, ofIdx_idx] at hIdx
        cases hIdx
        rw [hText] at hText'
        cases hText'
        exact hRange
      case isFalse =>
        -- an earlier value
        unfold CStateView.history at hv
        rw [hBare.consensus] at hv
        cases hOld : view.consensus[pos.idx]? with
        | none =>
          rw [hOld] at hv
          simp at hv
        | some q =>
          rw [hOld] at hv
          exact hInv.values pos q hOld height value hv

/-- The transactions of a block. -/
theorem ConnectRun.suits
    (run : ConnectRun node block pindex pprev fund recorded view r) (hInv : RangeInv view)
    (hHashes : ∀ tx ∈ block.vtx, tx.hash ≠ 0) : AnswersSuit run.st.view := by
  refine (foldlM_except_invariant
    (fun _ (st : ConnectState) => AnswersSuit st.view ∧ Firm st.view) block.vtx.zipIdx
    (b := .initial fund recorded view) ⟨hInv.answers, hInv.firm⟩ ?_ run.loop).1
  intro done it rest st st' hl hP hStep
  refine ⟨?_, (connectTx_grows (hHashes it.1 (mem_of_zipIdx_split hl)) hStep).firm hP.2⟩
  obtain ⟨st1, st2, view1, view2, undo, hVotes, -, hValues, hCreate, hCoins, rfl⟩ :=
    connectTx_ok hStep
  obtain ⟨lists, recorded', votes, rfl⟩ := takeVotes_ok hVotes
  rw [(checkValues_kept hValues).1] at hCreate
  have hCreated := (createObject_created hCreate).suits
    ⟨hP.2.proposals, hP.2.paymentRequests, hP.2.consultations, hP.2.answers⟩
    (hHashes it.1 (mem_of_zipIdx_split hl)) (hP.1.of_same rfl rfl)
  have hFrame := updateCoins_frame hCoins
  dsimp only at hFrame
  exact hCreated.of_same (by rw [hFrame]) (by rw [hFrame])

/-- The transactions and the payouts of a block. -/
theorem connectBlock_rangeInv (hInv : RangeInv view) (hHashes : ∀ tx ∈ block.vtx, tx.hash ≠ 0)
    (h : connectBlock node block pindex pprev fund recorded view = .ok r) : RangeInv r.view := by
  rcases (connectBlock_ok h).2 with ⟨-, rfl⟩ | ⟨-, ⟨cr⟩⟩
  · exact hInv
  · have hGrows := cr.grows hHashes
    have hPaid : r.view = cr.cb.view := congrArg Connected.view cr.result
    have hFrame := cr.paysOut.frame
    rw [hPaid]
    refine ⟨cr.paysOut.firm (hGrows.firm hInv.firm), ?_, ?_⟩
    · exact (cr.suits hInv hHashes).of_same (by rw [hFrame]) (by rw [hFrame])
    · rw [hFrame]
      rw [hGrows.consensus]
      exact hInv.values

/-- **Connecting.** -/
theorem connectTip_rangeInv (hInv : RangeInv st.view) (hExt : Extends node st.chain block pindex)
    (h : connectTip node block pindex st = some st') : RangeInv st'.view := by
  unfold connectTip at h
  split at h
  case h_1 =>
    cases h
    exact hInv
  case h_2 r hConnect =>
    rw [map_eq_some_iff] at h
    obtain ⟨v, hVote, rfl⟩ := h
    obtain ⟨s, fCFund, fDAOConsultations, ⟨run⟩⟩ := voteStep_phases hVote
    exact run.rangeInv (connectBlock_rangeInv hInv hExt.hashes hConnect)

/-- What `DisconnectBlock` leaves. -/
theorem disconnectBlock_rangeInv {fClean : Bool} (hInv : RangeInv view)
    (h : disconnectBlock node block pindex pprev recorded vtxundo view = some (fClean, view')) :
    RangeInv view' := by
  obtain ⟨left, counted, hShrinks, hParented, hBare, hFrame⟩ :=
    disconnectBlock_shrinks hInv.firm hInv.answers.parented h
  -- what is left suits, since an answer and its consultation stay together
  have hLeft : AnswersSuit left := by
    intro hash a ha
    obtain ⟨c, hc, hListed⟩ := hParented hash a ha
    obtain ⟨d, hd, hcd, -⟩ := hShrinks.consultations a.parent c hc
    obtain ⟨e, he, -, hText⟩ := hInv.answers hash a (hShrinks.answers hash a ha)
    rw [hd] at he
    cases he
    refine ⟨c, hc, hListed, hText.of_same ?_ ?_⟩
    · rw [hcd]
    · rw [hcd]
  refine ⟨?_, ?_, ?_⟩
  · have hFirm := hBare.firm (hShrinks.firm hInv.firm)
    rw [hFrame]
    exact ⟨hFirm.proposals, hFirm.paymentRequests, hFirm.consultations, hFirm.answers⟩
  · exact (hLeft.bare hBare).of_same (by rw [hFrame]) (by rw [hFrame])
  · intro pos p hp height value hv
    obtain ⟨mid, hMid, hEnd⟩ := disconnectBlock_lists h
    rw [hEnd] at hp
    obtain ⟨q, hq, hOld⟩ := clearParameters_entries hp hv
    refine hInv.values pos q ?_ height value hOld
    have hConsensus : ∀ b : Bool, (if b then clearVotes pindex.nHeight mid else mid).consensus =
        mid.consensus := by
      intro b
      cases b with
      | false => rfl
      | true =>
        rw [if_pos rfl, clearVotes_frame]
    rw [hConsensus, hMid.consensus] at hq
    exact hq

/-- **Disconnecting.** -/
theorem disconnectTip_rangeInv (hInv : RangeInv st.view)
    (h : disconnectTip node block vtxundo fund st = some st') : RangeInv st'.view := by
  unfold disconnectTip at h
  split at h
  case h_1 => cases h
  case h_2 pindex pprev _ =>
    simp only [bind_eq_bind, bind_eq_some_iff] at h
    obtain ⟨⟨fClean, view⟩, hDisconnect, v, hVote, h⟩ := h
    cases h
    obtain ⟨s, fCFund, fDAOConsultations, ⟨run⟩⟩ := voteStep_phases hVote
    exact run.rangeInv (disconnectBlock_rangeInv hInv hDisconnect)

/-- **Step.** -/
theorem rangeInv_step (hInv : RangeInv st.view)
    (hStep : ReorgStep node st st') : RangeInv st'.view := by
  rcases hStep with ⟨block, pindex, hExt, hConnect⟩ | ⟨block, vtxundo, fund, hDisconnect⟩
  · exact connectTip_rangeInv hInv hExt hConnect
  · exact disconnectTip_rangeInv hInv hDisconnect

/-- `DisconnectTip` changes the coins as the coin part of `DisconnectBlock` does. -/
theorem disconnectTip_coins (hInv : RangeInv st.view)
    (h : disconnectTip node block vtxundo fund st = some st') :
    ∃ pindex fClean w, st.chain = pindex :: st'.chain ∧
      disconnectCoins pindex.nHeight block.vtx vtxundo st.view = some (fClean, w) ∧
      st'.view.coins = w.coins := by
  unfold disconnectTip at h
  split at h
  case h_1 => cases h
  case h_2 pindex pprev hChain =>
    simp only [bind_eq_bind, bind_eq_some_iff] at h
    obtain ⟨⟨fClean, view⟩, hDisconnect, v, hVote, h⟩ := h
    cases h
    obtain ⟨w, hCoins, hSame⟩ := disconnectBlock_coins hDisconnect
    refine ⟨pindex, fClean, w, hChain, hCoins, ?_⟩
    rw [hSame]
    exact voteStep_coins (disconnectBlock_rangeInv hInv hDisconnect).firm hVote

/-- **Run.** -/
theorem rangeInv_run {start : ChainState} (hStart : RangeInv start.view)
    (hRun : ReorgRun node start st) : RangeInv st.view := by
  induction hRun with
  | refl => exact hStart
  | tail _ hStep ih => exact rangeInv_step ih hStep

/-- The value at the greatest height is one of the values. -/
theorem CConsensusParameter.get_mem {p : CConsensusParameter} {value : Nat}
    (h : p.get = some value) : ∃ height : Nat, p.list[height]? = some value := by
  unfold get at h
  rw [map_eq_some_iff] at h
  obtain ⟨it, hIt, rfl⟩ := h
  have hInv := foldl_invariant
    (fun _ (ret : Option (Nat × Nat)) => ∀ it, ret = some it → it ∈ p.list.toList)
    p.list.toList (b := none) (f := fun ret it =>
      if it.1 < (ret.map (·.1)).getD 0 then ret else some it)
    (fun _ h => nomatch h) ?_
  · exact ⟨it.1, Std.ExtTreeMap.mem_toList_iff_getElem?_eq_some.mp (hInv it hIt)⟩
  · intro done x rest ret hl hP y hy
    split at hy
    · exact hP y hy
    · cases hy
      rw [hl]
      simp

/-- **Ranges.** Over any sequence of connected and disconnected blocks, every parameter is in its
range if its default is; in particular neither divisor is ever zero. -/
theorem parameters_inRange {node : Node} {start st : ChainState}
    (hDefaults : ∀ pos : ConsensusParamsPos, pos.type.InRange (node.params.vParameters pos))
    (hStart : RangeInv start.view) (hRun : ReorgRun node start st) :
    (∀ pos : ConsensusParamsPos,
      pos.type.InRange (getConsensusParameter node.toEnv st.view pos)) ∧
      getConsensusParameter node.toEnv st.view .votingCycleLength ≠ 0 ∧
      getConsensusParameter node.toEnv st.view .fundSpreadAccumulation ≠ 0 := by
  have hInv := rangeInv_run hStart hRun
  have hAll : ∀ pos : ConsensusParamsPos,
      pos.type.InRange (getConsensusParameter node.toEnv st.view pos) := by
    intro pos
    unfold getConsensusParameter
    cases hp : st.view.consensus[pos.idx]? with
    | none => exact hDefaults pos
    | some p =>
      rw [Option.bind_some]
      cases hValue : p.get with
      | none => exact hDefaults pos
      | some value =>
        obtain ⟨height, hEntry⟩ := CConsensusParameter.get_mem hValue
        exact hInv.values pos p hp height value hEntry
  have hCycle : 1 ≤ getConsensusParameter node.toEnv st.view .votingCycleLength :=
    (hAll .votingCycleLength).1
  have hSpread : 1 ≤ getConsensusParameter node.toEnv st.view .fundSpreadAccumulation :=
    (hAll .fundSpreadAccumulation).1
  exact ⟨hAll, by omega, by omega⟩

/-- The answer about the quorum spells a percentage, and the cycles have a length. -/
theorem quorumView_rangeInv : RangeInv (quorumView 3) := by
  have hConsultation : (quorumView 3).getConsultation 100 = some (quorumConsultation 3) := by
    decide +kernel
  refine ⟨⟨?_, ?_, ?_, ?_⟩, ?_, ?_⟩
  · intro hash p hp
    simp [quorumView, CStateView.empty, CStateView.getProposal] at hp
  · intro hash r hr
    simp [quorumView, CStateView.empty, CStateView.getPaymentRequest] at hr
  · intro hash c hc
    simp only [quorumView, CStateView.getConsultation, Std.ExtTreeMap.getElem?_insert] at hc
    split at hc <;> cases hc
    decide
  · intro hash a ha
    simp only [quorumView, CStateView.getConsultationAnswer, Std.ExtTreeMap.getElem?_insert] at ha
    split at ha <;> cases ha
    decide +kernel
  · intro hash a ha
    simp only [quorumView, CStateView.getConsultationAnswer, Std.ExtTreeMap.getElem?_insert] at ha
    split at ha
    case isTrue hHash =>
      cases ha
      refine ⟨_, hConsultation, ?_, fun _ => ⟨.proposalMinQuorum, 5000, rfl, by decide +kernel,
        (ConsensusParamType.admits_iff _ _).mp (by decide)⟩⟩
      rw [← Std.compare_eq_iff_eq.mp hHash]
      exact List.mem_singleton_self 101
    case isFalse => cases ha
  · intro pos p hp height value hValue
    simp only [quorumView, shortCycles, Std.ExtTreeMap.getElem?_insert] at hp
    split at hp
    case isTrue hIdx =>
      cases hp
      have hPos := ofIdx_idx pos
      rw [← Std.compare_eq_iff_eq.mp hIdx, ofIdx_idx] at hPos
      cases hPos
      rw [Std.ExtTreeMap.getElem?_insert] at hValue
      split at hValue <;> cases hValue
      exact (ConsensusParamType.admits_iff _ _).mp (by decide)
    case isFalse => cases hp

/-- The answer passes and the quorum changes to a half; then the block is disconnected. -/
theorem parameters_inRange_quorumBlock : ∃ st st',
    connectTip smallNode quorumBlock (smallBlock 9) quorumState = some st ∧
    getConsensusParameter smallNode.toEnv quorumState.view .proposalMinQuorum ≠ 5000 ∧
    getConsensusParameter smallNode.toEnv st.view .proposalMinQuorum = 5000 ∧
    disconnectTip smallNode quorumBlock [] ⟨0, 0⟩ st = some st' ∧
    (∀ pos : ConsensusParamsPos,
      pos.type.InRange (getConsensusParameter smallNode.toEnv st.view pos)) ∧
    ∀ pos : ConsensusParamsPos,
      pos.type.InRange (getConsensusParameter smallNode.toEnv st'.view pos) := by
  obtain ⟨st, hConnect, hValue, hSome⟩ : ∃ st,
      connectTip smallNode quorumBlock (smallBlock 9) quorumState = some st ∧
      getConsensusParameter smallNode.toEnv st.view .proposalMinQuorum = 5000 ∧
      (disconnectTip smallNode quorumBlock [] ⟨0, 0⟩ st).isSome = true := by
    decide +kernel
  obtain ⟨st', hDisconnect⟩ := Option.isSome_iff_exists.mp hSome
  have hExt : Extends smallNode quorumState.chain quorumBlock (smallBlock 9) :=
    ⟨rfl, rfl, rfl, by decide +kernel, rfl, by decide⟩
  have hDefaults (pos : ConsensusParamsPos) :
      pos.type.InRange (smallNode.params.vParameters pos) :=
    (ConsensusParamType.admits_iff _ _).mp (by cases pos <;> rfl)
  have hRun : ReorgRun smallNode quorumState st := .single (.inl ⟨_, _, hExt, hConnect⟩)
  exact ⟨st, st', hConnect, by decide +kernel, hValue, hDisconnect,
    (parameters_inRange hDefaults quorumView_rangeInv hRun).1,
    (parameters_inRange hDefaults quorumView_rangeInv
      (hRun.tail (.inr ⟨_, _, _, hDisconnect⟩))).1⟩

/-! ## The split of a block's generation -/

/-- **The fund's share and the staker's.**  For values in range the fund gets its percentage of the
generation, rounded down, and the staker the rest, exactly when the product fits 64 bits; a
generation may be as large as an amount, so it need not. -/
theorem fundSplit_exact_iff (env : Env) (view : CStateView)
    (hGeneration : generationPerBlock.type.InRange
      (getConsensusParameter env view .generationPerBlock))
    (hPercent : fundPercentPerBlock.type.InRange
      (getConsensusParameter env view .fundPercentPerBlock)) :
    (getFundContributionPerBlock env view = getConsensusParameter env view .generationPerBlock *
        getConsensusParameter env view .fundPercentPerBlock / 10000 ∧
      getFundContributionPerBlock env view + getStakingRewardPerBlock env view =
        getConsensusParameter env view .generationPerBlock ∧
      getFundContributionPerBlock env view ≤ getConsensusParameter env view .generationPerBlock ∧
      getStakingRewardPerBlock env view ≤ getConsensusParameter env view .generationPerBlock) ↔
    getConsensusParameter env view .generationPerBlock *
      getConsensusParameter env view .fundPercentPerBlock < 2 ^ 64 := by
  unfold getStakingRewardPerBlock getFundContributionPerBlock
  generalize getConsensusParameter env view .generationPerBlock = generation at *
  generalize getConsensusParameter env view .fundPercentPerBlock = percent at *
  have hLarge : generation < 2 ^ 63 := by
    have hMoney : (generation : Int) ≤ MAX_MONEY := hGeneration
    unfold MAX_MONEY at hMoney
    omega
  have hProduct : generation * percent ≤ generation * 10000 := Nat.mul_le_mul_left _ hPercent
  generalize generation * percent = product at *
  constructor
  · omega
  · have hShare : product % 2 ^ 64 / 10000 ≤ generation := by omega
    rw [sub64_of_le hShare (by omega)]
    omega

theorem fundSplit_exact_default :
    getFundContributionPerBlock (Node.trusting (fun _ _ => true) ∅ []).toEnv .empty +
      getStakingRewardPerBlock (Node.trusting (fun _ _ => true) ∅ []).toEnv .empty = 100000000 := by
  have hExact := fundSplit_exact_iff (Node.trusting (fun _ _ => true) ∅ []).toEnv .empty
    ((ConsensusParamType.admits_iff _ _).mp (by decide +kernel))
    ((ConsensusParamType.admits_iff _ _).mp (by decide +kernel))
  exact (hExact.mpr (by decide +kernel)).2.1

/-- A view in which the generation is the largest amount and the fund gets half of it. -/
def largestGeneration : CStateView :=
  { CStateView.empty with
    consensus := ((∅ : Map Nat CConsensusParameter).insert
      generationPerBlock.idx ⟨(∅ : Map Nat Nat).insert 1 (2 ^ 63 - 1)⟩).insert
      fundPercentPerBlock.idx ⟨(∅ : Map Nat Nat).insert 1 5000⟩ }

/-- **The product wraps around.**  Both values are in range. -/
theorem fundSplit_wraps :
    let env := (Node.trusting (fun _ _ => true) ∅ []).toEnv
    let generation := getConsensusParameter env largestGeneration .generationPerBlock
    let percent := getConsensusParameter env largestGeneration .fundPercentPerBlock
    generationPerBlock.type.admits generation = true ∧
      fundPercentPerBlock.type.admits percent = true ∧
      generation * percent / 10000 = 4611686018427387903 ∧
      getFundContributionPerBlock env largestGeneration = 1844674407370954 := by
  decide +kernel

end Electrum
