import Electrum.Dao.StepDAO
import Electrum.Dao.StepFund

/-!
# One call of VoteStep

The phases of a call that connects a block, each with what it keeps.  Later proofs take a
`StepRun` apart and never unfold `voteStep`.

Main results:
* `voteStep_run` — a successful call went through these phases
* `StepRun.answers`, `StepRun.consultations`, `StepRun.history` — what the call made of the
  answers, the consultations and the parameters
-/

namespace Electrum

open Option

/-! ## The two pairs of loops -/

variable {s : StepContext} {view : CStateView}

theorem stepFund_frame (hs : s.pindexDelete = none) (hSolid : Solid view) (fund : Fund) :
    (stepFund s view fund).1 = { view with
      proposals := (stepFund s view fund).1.proposals
      paymentRequests := (stepFund s view fund).1.paymentRequests } ∧
    Solid (stepFund s view fund).1 := by
  have hRequests := (stepRequests_spec hs hSolid fund).1
  have hProposals := (stepProposals_spec hs hRequests.solid (stepRequests s view fund).2).1
  rw [stepFund_eq hs hSolid]
  refine ⟨?_, hProposals.solid⟩
  rw [hProposals.frame, hRequests.frame]

/-- What the loops over answers and consultations do. -/
structure DAOChanges (s : StepContext) (view changed : CStateView) (changes : Map Nat Nat) :
    Prop where
  frame : changed = { view with
    consultations := changed.consultations, answers := changed.answers }
  solid : Solid changed
  answers : ∀ hash, changed.getConsultationAnswer hash =
    (view.getConsultationAnswer hash).map (·.turn s view)
  numbers : ∀ hash a, view.getConsultationAnswer hash = some a → a.steps s = true →
    a.wins s view = true → ∃ value, stoll a.sAnswer = some value
  consultations : ∀ hash, changed.getConsultation hash =
    (view.getConsultation hash).map (·.turn s changes { view with answers := changed.answers })
  changes : ∀ pos, changes[pos]? =
    ((winnerChanges s view).find? fun change => change.1 == pos).map (·.2)

/-- Which parameters the loop over the answers changes, and to which values. -/
theorem stepDAO_changes (hs : s.pindexDelete = none)
    (hSolid : Solid view) {changed : CStateView} {changes : Map Nat Nat}
    (h : stepDAO s view = some (changed, changes)) : DAOChanges s view changed changes := by
  unfold stepDAO at h
  rw [map_eq_some_iff] at h
  obtain ⟨st, hAnswers, hEq⟩ := h
  obtain ⟨hLoop, hTurns⟩ := stepAnswers_spec hs hSolid hAnswers
  obtain ⟨hLoop', hTurns'⟩ := stepConsultations_spec hs (m := st.2) hLoop.solid
    view.consultations.keys (Map.nodup_keys _) (fun hash => by
      rw [hLoop.frame, Map.mem_keys_iff]
      rfl)
  have hChanges : st.2 = changes := congrArg Prod.snd hEq
  have hChanged : view.consultations.keys.foldl (stepConsultation s st.2) st.1 = changed :=
    congrArg Prod.fst hEq
  rw [hChanged] at hLoop' hTurns'
  have hSameAnswers : changed.answers = st.1.answers := by rw [hLoop'.frame]
  exact {
    frame := by
      rw [hLoop'.frame, hLoop.frame]
    solid := hLoop'.solid
    answers := fun hash => by
      have hGet : changed.getConsultationAnswer hash = st.1.getConsultationAnswer hash := by
        rw [CStateView.getConsultationAnswer, hSameAnswers]
        rfl
      rw [hGet, (hTurns hash).1]
    numbers := fun hash => (hTurns hash).2
    consultations := fun hash => by
      have hGet : st.1.getConsultation hash = view.getConsultation hash := by
        rw [hLoop.frame]
        rfl
      rw [hTurns' hash, hGet, hChanges, hSameAnswers, ← hLoop.frame]
    changes := fun pos => by
      rw [← hChanges]
      exact stepAnswers_changes hs hSolid hAnswers pos }

/-! ## The call -/

/-- The phases of a call: counting, the state changes of the fund's objects, those of the DAO's
objects, and the restart of the counters. -/
structure StepRun (s : StepContext) (fCFund fDAOConsultations : Bool) (c : VoteCache)
    (fund : Fund) (view : CStateView) (fund' : Fund) (view' : CStateView) where
  counted : CStateView
  decided : CStateView
  changed : CStateView
  changes : Map Nat Nat
  restarted : CStateView
  counted_eq : counted = excludeAll s fCFund fDAOConsultations
    (tallyAll s fCFund fDAOConsultations c view).1
  decided_eq : (decided, fund') = if fCFund then stepFund s counted fund else (counted, fund)
  changed_eq : (if fDAOConsultations then stepDAO s decided else some (decided, ∅)) =
    some (changed, changes)
  restarted_eq : restarted = if s.fScanningWholeCycle then
    resetAll s fCFund fDAOConsultations (tallyAll s fCFund fDAOConsultations c view).2.1
      (tallyAll s fCFund fDAOConsultations c view).2.2 changed else changed
  result : view' = setParameters s.pindexNew.nHeight changes restarted

theorem applyStep_run {fCFund fDAOConsultations : Bool} {c : VoteCache}
    {fund : Fund} {r : CStateView × Fund}
    (h : applyStep s fCFund fDAOConsultations c fund view = some r) :
    Nonempty (StepRun s fCFund fDAOConsultations c fund view r.2 r.1) := by
  cases fDAOConsultations with
  | true =>
    obtain ⟨⟨changed, changes⟩, hChanged, hResult⟩ := bind_eq_some_iff.mp h
    cases hResult
    exact ⟨⟨_, _, changed, changes, _, rfl, rfl, hChanged, rfl, rfl⟩⟩
  | false =>
    cases h
    exact ⟨⟨_, _, _, ∅, _, rfl, rfl, rfl, rfl, rfl⟩⟩

/-- The count that a connect call works with: whether it scanned the whole cycle, and the
caches after the scan. -/
def scanFor (env : Env) (votes : RecordedVotes) (pindex : CBlockIndex) (pprev : Chain)
    (view : CStateView) (c : VoteCache) : Bool × VoteCache :=
  let hash := getConsensusStateHash env view
  let nBlocks := cyclePosition (getConsensusParameter env view .votingCycleLength) pindex.nHeight
  let fCFund := env.isActive .communityFund pprev
  let fDAOConsultations := env.isActive .consultations pprev
  let whole := needsWholeScan false hash nBlocks c
  (whole, if whole then
      scanBlocks view votes fCFund fDAOConsultations nBlocks (pindex :: pprev)
        (.cleared (some hash))
    else scanBlocks view votes fCFund fDAOConsultations 1 (pindex :: pprev) c)

/-- What a connect call fixes at its start. -/
def StepContext.connecting (env : Env) (votes : RecordedVotes) (pindex : CBlockIndex)
    (pprev : Chain) (view : CStateView) (c : VoteCache) : StepContext :=
  ⟨env, pindex, none, getConsensusParameter env view .votingCycleLength,
    (scanFor env votes pindex pprev view c).1,
    (scanFor env votes pindex pprev view c).2.nCacheExclude⟩

/-- The view with the votes counted for a connected block. -/
def countedView (env : Env) (votes : RecordedVotes) (pindex : CBlockIndex) (pprev : Chain)
    (view : CStateView) (c : VoteCache) : CStateView :=
  let s := StepContext.connecting env votes pindex pprev view c
  let fCFund := env.isActive .communityFund pprev
  let fDAOConsultations := env.isActive .consultations pprev
  excludeAll s fCFund fDAOConsultations
    (tallyAll s fCFund fDAOConsultations (scanFor env votes pindex pprev view c).2 view).1

/-- **VoteStep.** A successful call on a connected block `pindex`. -/
theorem voteStep_run {env : Env} {votes : RecordedVotes} {pindex : CBlockIndex} {pprev : Chain}
    {fund : Fund} {c : VoteCache} {r : CStateView × Fund × VoteCache}
    (h : voteStep env votes (pindex :: pprev) false fund view c = some r) :
    getConsensusParameter env view .votingCycleLength ≠ 0 ∧
    r.2.2 = (scanFor env votes pindex pprev view c).2 ∧
    ∃ run : StepRun (.connecting env votes pindex pprev view c)
      (env.isActive .communityFund pprev) (env.isActive .consultations pprev)
      (scanFor env votes pindex pprev view c).2 fund view r.2.1 r.1,
      run.counted = countedView env votes pindex pprev view c := by
  dsimp only [voteStep, voteStepAt] at h
  rw [if_neg Bool.false_ne_true] at h
  split at h
  case isTrue => cases h
  case isFalse hCond =>
    rw [map_eq_some_iff] at h
    obtain ⟨q, hStep, rfl⟩ := h
    have hCycle : getConsensusParameter env view .votingCycleLength ≠ 0 := by
      intro hZero
      simp [hZero] at hCond
    obtain ⟨run⟩ := applyStep_run hStep
    exact ⟨hCycle, rfl, run, run.counted_eq⟩

namespace StepRun

variable {s : StepContext} {fCFund fDAOConsultations : Bool} {c : VoteCache}
  {fund fund' : Fund} {view view' : CStateView}
  (run : StepRun s fCFund fDAOConsultations c fund view fund' view')
  (hs : s.pindexDelete = none) (hSolid : Solid view)

section Phases

include hs hSolid

theorem counted_countsOnly : CountsOnly s.env view run.counted := by
  rw [run.counted_eq]
  have hTally : CountsOnly s.env view (tallyAll s fCFund fDAOConsultations c view).1 :=
    tallyAll_countsOnly hs hSolid
  exact hTally.trans (excludeAll_countsOnly (hTally.toSameCore.solid hSolid))

theorem counted_solid : Solid run.counted :=
  (run.counted_countsOnly hs hSolid).toSameCore.solid hSolid

theorem decided_frame : run.decided = { run.counted with
      proposals := run.decided.proposals, paymentRequests := run.decided.paymentRequests } ∧
    Solid run.decided := by
  have hCounted := run.counted_solid hs hSolid
  have hDecided := congrArg Prod.fst run.decided_eq
  split at hDecided
  · obtain ⟨hFrame, hSolid'⟩ := stepFund_frame hs hCounted fund
    rw [show run.decided = (stepFund s run.counted fund).1 from hDecided]
    exact ⟨hFrame, hSolid'⟩
  · rw [show run.decided = run.counted from hDecided]
    exact ⟨rfl, hCounted⟩

theorem changed_frame : run.changed = { run.decided with
      consultations := run.changed.consultations, answers := run.changed.answers } ∧
    Solid run.changed := by
  have hDecided := (run.decided_frame hs hSolid).2
  have hChanged := run.changed_eq
  split at hChanged
  · have hDAO := stepDAO_changes hs hDecided hChanged
    exact ⟨hDAO.frame, hDAO.solid⟩
  · have hEq : run.decided = run.changed := congrArg Prod.fst (some.inj hChanged)
    rw [← hEq]
    exact ⟨rfl, hDecided⟩

theorem restarted_countsOnly : CountsOnly s.env run.changed run.restarted := by
  rw [run.restarted_eq]
  split
  · exact resetAll_countsOnly (run.changed_frame hs hSolid).2
  · exact .refl _ _

end Phases

/-- The parameters change last, and nothing else changes with them. -/
theorem result_frame : view' = { run.restarted with consensus := view'.consensus } := by
  have hFrame := (setParameters_spec s.pindexNew.nHeight run.changes run.restarted).1
  rw [← run.result] at hFrame
  exact hFrame

include run hs hSolid

/-- The call keeps objects that are not null. -/
theorem solid : Solid view' := by
  have hRestarted := (run.restarted_countsOnly hs hSolid).toSameCore.solid
    (run.changed_frame hs hSolid).2
  rw [run.result_frame]
  exact ⟨hRestarted.proposals, hRestarted.paymentRequests, hRestarted.consultations,
    hRestarted.answers⟩

theorem dao (hDAO : fDAOConsultations = true) :
    DAOChanges s run.decided run.changed run.changes := by
  have hChanged := run.changed_eq
  rw [if_pos hDAO] at hChanged
  exact stepDAO_changes hs (run.decided_frame hs hSolid).2 hChanged

/-- **Answers.** Every answer takes its turn on the counted votes. -/
theorem answers (hDAO : fDAOConsultations = true) (hash : UInt256) :
    (view'.getConsultationAnswer hash).map CConsultationAnswer.core =
      (run.counted.getConsultationAnswer hash).map (fun a => (a.turn s run.counted).core) := by
  have hFrame := (run.decided_frame hs hSolid).1
  have hFinal : view'.getConsultationAnswer hash = run.restarted.getConsultationAnswer hash :=
    congrArg (·.getConsultationAnswer hash) run.result_frame
  have hCounted : run.decided.getConsultationAnswer hash =
      run.counted.getConsultationAnswer hash := by
    rw [hFrame]
    rfl
  rw [hFinal, (run.restarted_countsOnly hs hSolid).answers, (run.dao hs hSolid hDAO).answers, map_map]
  congr 1
  funext a
  -- the turn reads nothing that the fund's loops change
  rw [Function.comp_apply, hFrame]
  rfl

omit hs hSolid in
/-- The turns of the answers keep their support. -/
theorem isSupported_changed (hDAO : DAOChanges s run.decided run.changed run.changes)
    (hFrame : run.decided = { run.counted with
      proposals := run.decided.proposals, paymentRequests := run.decided.paymentRequests })
    (c : CConsultation) :
    c.isSupported s.env { run.decided with answers := run.changed.answers } =
      c.isSupported s.env run.counted := by
  refine CConsultation.isSupported_congr (by rw [hFrame]) fun hash => ?_
  have hCounted : run.decided.getConsultationAnswer hash =
      run.counted.getConsultationAnswer hash := by
    rw [hFrame]
    rfl
  show (run.changed.getConsultationAnswer hash).map _ = _
  rw [hDAO.answers, hCounted, map_map]
  congr 1
  funext a
  show ((a.turn s run.decided).parent, (a.turn s run.decided).nSupport) = _
  rw [CConsultationAnswer.turn_eq]

/-- **Consultations.** Every consultation takes its turn on the parameters of the view, the counted
support and the changes of the winning answers. -/
theorem consultations (hDAO : fDAOConsultations = true) :
    ∃ v : CStateView, v.consensus = run.counted.consensus ∧
      (∀ c : CConsultation, c.isSupported s.env v = c.isSupported s.env run.counted) ∧ ∀ hash,
      (view'.getConsultation hash).map CConsultation.core =
        (run.counted.getConsultation hash).map (fun c => (c.turn s run.changes v).core) := by
  have hFrame := (run.decided_frame hs hSolid).1
  have hChanges := run.dao hs hSolid hDAO
  refine ⟨{ run.decided with answers := run.changed.answers }, by rw [hFrame],
    run.isSupported_changed hChanges hFrame, fun hash => ?_⟩
  have hFinal : view'.getConsultation hash = run.restarted.getConsultation hash :=
    congrArg (·.getConsultation hash) run.result_frame
  have hCounted : run.decided.getConsultation hash = run.counted.getConsultation hash := by
    rw [hFrame]
    rfl
  rw [hFinal, (run.restarted_countsOnly hs hSolid).consultations, hChanges.consultations, hCounted,
    map_map]
  rfl

/-- The changes are those that the winners ask for on the counted votes. -/
theorem changes_counted (hDAO : fDAOConsultations = true) (pos : Nat) : run.changes[pos]? =
      ((winnerChanges s run.counted).find? fun change => change.1 == pos).map (·.2) := by
  have hFrame := (run.decided_frame hs hSolid).1
  have hSame : winnerChanges s run.decided = winnerChanges s run.counted := by
    rw [hFrame]
    rfl
  rw [(run.dao hs hSolid hDAO).changes, hSame]

/-- **Parameters.** A parameter with a change gets its value at the block's height. -/
theorem history (pos : Nat) : view'.consensus[pos]? = match run.changes[pos]? with
      | none => view.consensus[pos]?
      | some value => some ((view.history pos).set s.pindexNew.nHeight value) := by
  have hSame : run.restarted.consensus = view.consensus := by
    rw [(run.restarted_countsOnly hs hSolid).consensus, (run.changed_frame hs hSolid).1]
    rw [(run.decided_frame hs hSolid).1]
    exact (run.counted_countsOnly hs hSolid).consensus
  have hSet := (setParameters_spec s.pindexNew.nHeight run.changes run.restarted).2 pos
  rw [← run.result] at hSet
  rw [hSet, CStateView.history, hSame]
  cases run.changes[pos]? <;> rfl

omit run in
/-- Before the deployment only counters of answers and consultations can change. -/
theorem inactive (run : StepRun s fCFund false c fund view fund' view') : run.changes = ∅ ∧
    (∀ hash, (view'.getConsultationAnswer hash).map CConsultationAnswer.core =
      (view.getConsultationAnswer hash).map CConsultationAnswer.core) ∧
    ∀ hash, (view'.getConsultation hash).map CConsultation.core =
      (view.getConsultation hash).map CConsultation.core := by
  have hChanged := some.inj run.changed_eq
  have hSame : run.decided = run.changed := congrArg Prod.fst hChanged
  have hFrame := (run.decided_frame hs hSolid).1
  rw [hSame] at hFrame
  have hCounted := run.counted_countsOnly hs hSolid
  have hRestarted := run.restarted_countsOnly hs hSolid
  refine ⟨(congrArg Prod.snd hChanged).symm, fun hash => ?_, fun hash => ?_⟩
  · have hFinal : view'.getConsultationAnswer hash = run.restarted.getConsultationAnswer hash :=
      congrArg (·.getConsultationAnswer hash) run.result_frame
    rw [hFinal, hRestarted.answers, ← hCounted.answers, hFrame]
    rfl
  · have hFinal : view'.getConsultation hash = run.restarted.getConsultation hash :=
      congrArg (·.getConsultation hash) run.result_frame
    rw [hFinal, hRestarted.consultations, ← hCounted.consultations, hFrame]
    rfl

end StepRun

end Electrum
