import Electrum.Dao.StepRun

/-!
# What VoteStep never changes

Connecting or disconnecting, `VoteStep` writes counters, states and voting cycles, and
parameters.  What is left of an object without these is *bare*: the texts, amounts and hashes
that its transaction gave it.  `SameBare` relates views whose objects are the same when bare.

Main results:
* `StepRun.bare` — `VoteStep` keeps every object bare, and changes a parameter only to a value
  that an answer of a consultation about it asks for
-/

namespace Electrum

open CConsultationAnswer Option Bool

/-! ## Bare objects -/

/-- An object that is not null when bare is not null with any counters. -/
theorem CProposal.notNull_of_bare {p : CProposal} (h : p.bare.isNull = false) :
    p.core.isNull = false := by
  by_contra hNull
  simp only [not_eq_false, isNull, core, and_eq_true] at hNull
  simp [isNull, bare, core, hNull] at h

theorem CPaymentRequest.notNull_of_bare {r : CPaymentRequest} (h : r.bare.isNull = false) :
    r.core.isNull = false := by
  by_contra hNull
  simp only [not_eq_false, isNull, core, and_eq_true] at hNull
  simp [isNull, bare, core, hNull] at h

variable {a : CConsultationAnswer} {view' : CStateView} {env : Env} {votes : RecordedVotes}
  {chain : Chain} {fUndo : Bool} {r : CStateView × Fund × VoteCache}

theorem CConsultationAnswer.notNull_of_bare
    (h : a.bare.isNull = false) : a.core.isNull = false := by
  by_contra hNull
  simp only [not_eq_false, isNull, core, and_eq_true] at hNull
  simp [isNull, bare, core, hNull] at h

theorem CConsultationAnswer.of_bare {b : CConsultationAnswer} (h : a.bare = b.bare) :
    a.parent = b.parent ∧ a.sAnswer = b.sAnswer := by
  have hParent : a.bare.parent = b.bare.parent := by rw [h]
  have hAnswer : a.bare.sAnswer = b.bare.sAnswer := by rw [h]
  exact ⟨hParent, hAnswer⟩

theorem CConsultation.of_bare {c d : CConsultation} (h : c.bare = d.bare) :
    c.hash = d.hash ∧ c.nVersion = d.nVersion ∧ c.nMin = d.nMin ∧ c.vAnswers = d.vAnswers := by
  have hHash : c.bare.hash = d.bare.hash := by rw [h]
  have hVersion : c.bare.nVersion = d.bare.nVersion := by rw [h]
  have hMin : c.bare.nMin = d.bare.nMin := by rw [h]
  have hAnswers : c.bare.vAnswers = d.bare.vAnswers := by rw [h]
  exact ⟨hHash, hVersion, hMin, hAnswers⟩

/-- No object counts as null, whatever its counters and its state. -/
structure Firm (view : CStateView) : Prop where
  proposals : ∀ hash p, view.getProposal hash = some p → p.bare.isNull = false
  paymentRequests : ∀ hash r, view.getPaymentRequest hash = some r → r.bare.isNull = false
  consultations : ∀ hash c, view.getConsultation hash = some c → c.hash ≠ 0
  answers : ∀ hash a, view.getConsultationAnswer hash = some a → a.bare.isNull = false

variable {view : CStateView} {c : VoteCache} {fund : Fund}

/-- The views hold the same bare objects, and agree elsewhere. -/
structure SameBare (view view' : CStateView) : Prop where
  coins : view'.coins = view.coins
  votes : view'.votes = view.votes
  consensus : view'.consensus = view.consensus
  proposals : ∀ hash, (view'.getProposal hash).map CProposal.bare =
    (view.getProposal hash).map CProposal.bare
  paymentRequests : ∀ hash, (view'.getPaymentRequest hash).map CPaymentRequest.bare =
    (view.getPaymentRequest hash).map CPaymentRequest.bare
  consultations : ∀ hash, (view'.getConsultation hash).map CConsultation.bare =
    (view.getConsultation hash).map CConsultation.bare
  answers : ∀ hash, (view'.getConsultationAnswer hash).map bare =
    (view.getConsultationAnswer hash).map bare

namespace SameBare

theorem refl (view : CStateView) : SameBare view view :=
  ⟨rfl, rfl, rfl, fun _ => rfl, fun _ => rfl, fun _ => rfl, fun _ => rfl⟩

theorem trans {u v w : CStateView} (h : SameBare u v) (h' : SameBare v w) : SameBare u w where
  coins := h'.coins.trans h.coins
  votes := h'.votes.trans h.votes
  consensus := h'.consensus.trans h.consensus
  proposals hash := (h'.proposals hash).trans (h.proposals hash)
  paymentRequests hash := (h'.paymentRequests hash).trans (h.paymentRequests hash)
  consultations hash := (h'.consultations hash).trans (h.consultations hash)
  answers hash := (h'.answers hash).trans (h.answers hash)

variable {view view' : CStateView} {hash : UInt256}

/-- An object of the second view, traced back. -/
theorem consultation_back (h : SameBare view view') {c : CConsultation}
    (hc : view'.getConsultation hash = some c) :
    ∃ d, view.getConsultation hash = some d ∧ c.bare = d.bare :=
  Map.core_of_some (h.consultations hash) hc

theorem answer_back (h : SameBare view view') {a : CConsultationAnswer}
    (ha : view'.getConsultationAnswer hash = some a) :
    ∃ b, view.getConsultationAnswer hash = some b ∧ a.bare = b.bare :=
  Map.core_of_some (h.answers hash) ha

theorem firm (h : SameBare view view') (hFirm : Firm view) : Firm view' := by
  refine ⟨?_, ?_, ?_, ?_⟩
  · intro hash p hp
    obtain ⟨q, hq, hEq⟩ := Map.core_of_some (h.proposals hash) hp
    rw [hEq]
    exact hFirm.proposals hash q hq
  · intro hash r hr
    obtain ⟨q, hq, hEq⟩ := Map.core_of_some (h.paymentRequests hash) hr
    rw [hEq]
    exact hFirm.paymentRequests hash q hq
  · intro hash c hc
    obtain ⟨d, hd, hEq⟩ := h.consultation_back hc
    rw [(CConsultation.of_bare hEq).1]
    exact hFirm.consultations hash d hd
  · intro hash a ha
    obtain ⟨b, hb, hEq⟩ := h.answer_back ha
    rw [hEq]
    exact hFirm.answers hash b hb

end SameBare

/-! ## Writing an object back -/

/-- Writes that keep the objects when bare keep them all. -/
theorem Write.sameBare (hFirm : Firm view)
    (h : Write Edit.keepsBare view view') : SameBare view view' := by
  cases h with
  | @proposal hash p p' h hEdit =>
    have hBare : p'.bare = p.bare := hEdit
    have hNull : p'.isNull = false := CProposal.notNull_of_core (CProposal.notNull_of_bare
      (by rw [hBare]; exact hFirm.proposals hash p h))
    exact { SameBare.refl view with
      proposals := fun k => Map.map_getElem?_setUnless h hBare hNull k }
  | @paymentRequest hash r r' h hEdit =>
    have hBare : r'.bare = r.bare := hEdit
    have hNull : r'.isNull = false := CPaymentRequest.notNull_of_core
      (CPaymentRequest.notNull_of_bare (by rw [hBare]; exact hFirm.paymentRequests hash r h))
    exact { SameBare.refl view with
      paymentRequests := fun k => Map.map_getElem?_setUnless h hBare hNull k }
  | @consultation hash c c' h hEdit =>
    have hNull : c'.isNull = false := CConsultation.notNull_of_hash
      (by rw [(CConsultation.of_bare hEdit).1]; exact hFirm.consultations hash c h)
    exact { SameBare.refl view with
      consultations := fun k => Map.map_getElem?_setUnless h hEdit hNull k }
  | @answer hash a a' h hEdit =>
    have hBare : a'.bare = a.bare := hEdit
    have hNull : a'.isNull = false := notNull_of_core
      (notNull_of_bare (by rw [hBare]; exact hFirm.answers hash a h))
    exact { SameBare.refl view with
      answers := fun k => Map.map_getElem?_setUnless h hBare hNull k }

/-- Writes that leave every object bare. -/
theorem Writes.sameBare (h : Writes Edit.keepsBare view view')
    (hFirm : Firm view) : SameBare view view' :=
  h.lift SameBare.refl SameBare.trans (fun hFirm h => (h.sameBare hFirm).firm hFirm)
    Write.sameBare hFirm

/-! ## The phases -/

section Steps

variable {s : StepContext} {hash : UInt256} {view : CStateView}

/-- An answer of the view asks for the value of a parameter. -/
def Asks (view : CStateView) (pos value : Nat) : Prop :=
  ∃ hash a c z, view.getConsultationAnswer hash = some a ∧
    view.getConsultation a.parent = some c ∧ c.isAboutConsensusParameter = true ∧
    c.nMin = pos ∧ stoll a.sAnswer = some z ∧ value = toU64 z

theorem Asks.back {view' : CStateView} (h : SameBare view view') {pos value : Nat}
    (hAsks : Asks view' pos value) : Asks view pos value := by
  obtain ⟨hash, a, c, z, ha, hc, hAbout, hMin, hText, hValue⟩ := hAsks
  obtain ⟨b, hb, hab⟩ := h.answer_back ha
  obtain ⟨d, hd, hcd⟩ := h.consultation_back hc
  obtain ⟨hParent, hAnswer⟩ := of_bare hab
  obtain ⟨-, hVersion, hPos, -⟩ := CConsultation.of_bare hcd
  refine ⟨hash, b, d, z, hb, by rw [← hParent]; exact hd, ?_, by rw [← hPos]; exact hMin,
    by rw [← hAnswer]; exact hText, hValue⟩
  unfold CConsultation.isAboutConsensusParameter at hAbout ⊢
  rw [← hVersion]
  exact hAbout

/-- One answer: the bare objects stay, and a new change is one that the answer asks for. -/
theorem stepAnswer_writes {st st' : CStateView × Map Nat Nat}
    (h : stepAnswer s st hash = some st') :
    Writes Edit.keepsBare st.1 st'.1 ∧
    ∀ pos value : Nat, st'.2[pos]? = some value → st.2[pos]? = some value ∨ Asks st.1 pos value := by
  -- all branches but the last leave the changes alone
  have hKeep : ∀ view, Writes Edit.keepsBare st.1 view → Writes Edit.keepsBare st.1 (view, st.2).1 ∧
      ∀ pos value : Nat, (view, st.2).2[pos]? = some value →
        st.2[pos]? = some value ∨ Asks st.1 pos value :=
    fun view hSame => ⟨hSame, fun _ _ hv => .inl hv⟩
  unfold stepAnswer at h
  split at h
  case h_1 =>
    cases h
    exact hKeep _ (.refl _)
  case h_2 a ha =>
    split at h
    case h_1 =>
      cases h
      exact hKeep _ (.refl _)
    case h_2 =>
      split at h
      case h_1 =>
        cases h
        exact hKeep _ (.single (.answer ha rfl))
      case h_2 =>
        split at h
        case isTrue =>
          cases h
          exact hKeep _ (.refl _)
        case isFalse =>
          dsimp only at h
          generalize hSupport : (if (a.isSupported s.env st.1 &&
            a.getLastState s.env.mapBlockIndex == Flags.nil) = true then
            a.setState s.pindexNew .accepted else a) = a' at h
          have hBare : a'.bare = a.bare := by
            rw [← hSupport]
            split <;> rfl
          have hSame : Writes Edit.keepsBare st.1 (st.1.setConsultationAnswer hash a') :=
            .single (.answer ha hBare)
          split at h
          case isFalse =>
            cases h
            exact hKeep _ hSame
          case isTrue =>
            split at h
            case h_1 =>
              cases h
              exact hKeep _ hSame
            case h_2 parent hParent =>
              split at h
              case isFalse =>
                cases h
                exact hKeep _ hSame
              case isTrue hAbout =>
                rw [map_eq_some_iff] at h
                obtain ⟨z, hText, rfl⟩ := h
                refine ⟨?_, fun pos value hv => ?_⟩
                · rw [CStateView.setConsultationAnswer_twice]
                  exact .single (.answer ha hBare)
                · rw [Std.ExtTreeMap.getElem?_insertIfNew] at hv
                  split at hv
                  case isFalse => exact .inl hv
                  case isTrue hEq =>
                    cases hv
                    obtain ⟨hSame', hText'⟩ := of_bare hBare
                    refine .inr ⟨hash, a, parent, z, ha, ?_, hAbout,
                      Std.compare_eq_iff_eq.mp hEq.1, by rw [← hText']; exact hText, rfl⟩
                    rw [← hSame']
                    exact hParent

theorem stepDAO_bare {r : CStateView × Map Nat Nat} (hFirm : Firm view)
    (h : stepDAO s view = some r) :
    SameBare view r.1 ∧ ∀ pos value : Nat, r.2[pos]? = some value → Asks view pos value := by
  unfold stepDAO at h
  rw [map_eq_some_iff] at h
  obtain ⟨st, hAnswers, rfl⟩ := h
  have hLoop := foldlM_option_invariant
    (fun _ (st : CStateView × Map Nat Nat) => SameBare view st.1 ∧
      ∀ pos value : Nat, st.2[pos]? = some value → Asks view pos value)
    view.answers.keys (b := (view, ∅)) ⟨.refl _, fun pos value hv => by simp at hv⟩ ?_ hAnswers
  · exact ⟨hLoop.1.trans ((Writes.foldl id (fun _ _ => stepConsultation_writes) _ st.1).sameBare
      (hLoop.1.firm hFirm)), hLoop.2⟩
  · intro done hash rest b b' _ hP hStep
    obtain ⟨hWrites, hChanges⟩ := stepAnswer_writes hStep
    refine ⟨hP.1.trans (hWrites.sameBare (hP.1.firm hFirm)), fun pos value hv => ?_⟩
    rcases hChanges pos value hv with hOld | hNew
    · exact hP.2 pos value hOld
    · exact hNew.back hP.1

end Steps

/-- **VoteStep.** Apart from the parameters nothing changes that is not counter, state or voting
cycle; and a parameter changes to a value that an answer asks for. -/
theorem StepRun.bare {s : StepContext} {fCFund fDAOConsultations : Bool} {fund' : Fund}
    (run : StepRun s fCFund fDAOConsultations c fund view fund' view') (hFirm : Firm view) :
    SameBare view run.restarted ∧
      ∀ pos value : Nat, run.changes[pos]? = some value → Asks view pos value := by
  have hCounted : SameBare view run.counted := by
    have hTally : Writes Edit.keepsBare view (tallyAll s fCFund fDAOConsultations c view).1 :=
      tallyAll_writes.mono fun _ hEdit => hEdit.1
    rw [run.counted_eq]
    exact (hTally.trans (excludeAll_writes.mono fun _ hEdit => hEdit.counts.keepsBare)).sameBare
      hFirm
  have hDecided : SameBare view run.decided := by
    have hEq := congrArg Prod.fst run.decided_eq
    split at hEq
    · rw [show run.decided = (stepFund s run.counted fund).1 from hEq]
      exact hCounted.trans (stepFund_writes.sameBare (hCounted.firm hFirm))
    · rw [show run.decided = run.counted from hEq]
      exact hCounted
  have hChanged : SameBare view run.changed ∧ ∀ pos value : Nat,
      run.changes[pos]? = some value → Asks view pos value := by
    have hEq := run.changed_eq
    split at hEq
    · obtain ⟨hSame, hAsks⟩ := stepDAO_bare (hDecided.firm hFirm) hEq
      exact ⟨hDecided.trans hSame, fun pos value hv => (hAsks pos value hv).back hDecided⟩
    · obtain ⟨hEq, hNone⟩ := Prod.mk.inj (some.inj hEq)
      rw [← hEq, ← hNone]
      exact ⟨hDecided, fun pos value hv => by simp at hv⟩
  refine ⟨?_, hChanged.2⟩
  rw [run.restarted_eq]
  split
  · exact hChanged.1.trans ((resetAll_writes.mono fun _ hEdit => hEdit.keepsBare).sameBare
      (hChanged.1.firm hFirm))
  · exact hChanged.1

/-- A successful call, connecting or undoing, went through the phases. -/
theorem voteStep_phases (h : voteStep env votes chain fUndo fund view c = some r) :
    ∃ s fCFund fDAOConsultations,
      Nonempty (StepRun s fCFund fDAOConsultations r.2.2 fund view r.2.1 r.1) := by
  obtain ⟨chain', pindexDelete, h⟩ : ∃ chain' pindexDelete,
      voteStepAt env votes chain' pindexDelete fund view c = some r := by
    unfold voteStep at h
    split at h
    · exact ⟨_, _, h⟩
    · exact ⟨_, _, h⟩
  unfold voteStepAt at h
  split at h
  case h_1 => cases h
  case h_2 pindexNew pprev =>
    dsimp only at h
    split at h
    · cases h
    · rw [map_eq_some_iff] at h
      obtain ⟨q, hStep, rfl⟩ := h
      exact ⟨_, _, _, applyStep_run hStep⟩

/-- The coins stay as they are. -/
theorem voteStep_coins
    (hFirm : Firm view) (h : voteStep env votes chain fUndo fund view c = some r) :
    r.1.coins = view.coins := by
  obtain ⟨s, fCFund, fDAOConsultations, ⟨run⟩⟩ := voteStep_phases h
  rw [run.result, (setParameters_spec s.pindexNew.nHeight run.changes run.restarted).1]
  exact (run.bare hFirm).1.coins

end Electrum
