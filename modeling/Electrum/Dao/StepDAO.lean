import Electrum.Dao.StepFrame

/-!
# State changes of answers and consultations

The two loops of `VoteStep` over answers and consultations, when a block is connected, and the
parameters they change.  An answer *wins* when the loop makes it PASSED; the value of a winning
answer goes to `mapConsensusToChange`, where the first one for a parameter stays.

Main results:
* `stepAnswers_spec` — what the first loop makes of each answer
* `stepAnswers_changes` — what it leaves in `mapConsensusToChange`
* `stepConsultations_spec` — what the second loop makes of each consultation
* `setParameters_spec` — the parameters after the block
-/

namespace Electrum

open Std.ExtTreeMap Option

/-! ## Answers -/

namespace CConsultationAnswer

/-- The answer passes at the end of this cycle: the test of `VoteStep`, which looks at the
answer's votes and at the kind of its parent, but not at the parent's state. -/
def wins (s : StepContext) (view : CStateView) (a : CConsultationAnswer) : Bool :=
  a.isConsensusAccepted s.env view && a.getLastState s.env.mapBlockIndex != .passed &&
    (view.getConsultation a.parent).any (·.isAboutConsensusParameter)

/-- The answer after the first half of its turn at a cycle end. -/
def supportTurn (s : StepContext) (view : CStateView) (a : CConsultationAnswer) :
    CConsultationAnswer :=
  if a.isSupported s.env view && a.getLastState s.env.mapBlockIndex == .nil then
    a.setState s.pindexNew .accepted else a

/-- The answer takes part in the state changes at this block. -/
def steps (s : StepContext) (a : CConsultationAnswer) : Bool :=
  s.isCycleEnd && (s.env.blockOf a.txblockhash).isSome

/-- The answer after its turn. -/
def turn (s : StepContext) (view : CStateView) (a : CConsultationAnswer) : CConsultationAnswer :=
  if !a.steps s then a
  else if a.wins s view then (a.supportTurn s view).setState s.pindexNew .passed
  else a.supportTurn s view

theorem supportTurn_eq (s : StepContext) (view : CStateView) (a : CConsultationAnswer) :
    a.supportTurn s view = { a with mapState := (a.supportTurn s view).mapState } := by
  unfold supportTurn
  split <;> rfl

theorem turn_eq (s : StepContext) (view : CStateView) (a : CConsultationAnswer) :
    a.turn s view = { a with mapState := (a.turn s view).mapState } := by
  unfold turn
  rw [supportTurn_eq]
  split
  · rfl
  · split <;> rfl

/-- An answer keeps its hash and texts through its turn; it can only become null without them. -/
theorem turn_solid {s : StepContext} {view : CStateView} {a : CConsultationAnswer}
    (h : a.core.isNull = false) : (a.turn s view).core.isNull = false := by
  have hSet : ∀ (b : CConsultationAnswer) state, (b.setState s.pindexNew state).core.isNull =
      false := by
    simp [isNull, core, setState, StateMap.setState]
  unfold turn
  split
  · exact h
  · split
    · exact hSet _ _
    · unfold supportTurn
      split
      · exact hSet _ _
      · exact h

end CConsultationAnswer

/-- What a winning answer puts into `mapConsensusToChange`: its parent's parameter and its
value. -/
def winnerChange (s : StepContext) (view : CStateView) (a : CConsultationAnswer) :
    Option (Nat × Nat) :=
  if a.steps s && a.wins s view then do
    let parent ← view.getConsultation a.parent
    let value ← stoll a.sAnswer
    return (parent.nMin, toU64 value)
  else none

/-- `insert` for a change, if there is one. -/
def addChange (m : Map Nat Nat) (change : Option (Nat × Nat)) : Map Nat Nat :=
  match change with
  | none => m
  | some (pos, value) => m.insertIfNew pos value

variable {view : CStateView} {hash : UInt256} {st : CStateView × Map Nat Nat}
  {a : CConsultationAnswer} {s : StepContext}

theorem Solid.setConsultationAnswer (hSolid : Solid view) (h : a.core.isNull = false) :
    Solid (view.setConsultationAnswer hash a) := by
  refine ⟨hSolid.proposals, hSolid.paymentRequests, hSolid.consultations, ?_⟩
  intro k q hq
  rw [CStateView.getConsultationAnswer_set (CConsultationAnswer.notNull_of_core h)] at hq
  split at hq
  · cases hq
    exact h
  · exact hSolid.answers k q hq

/-- **One turn of the first loop.** -/
theorem stepAnswer_turn (hs : s.pindexDelete = none)
    {st' : CStateView × Map Nat Nat} (hSolid : Solid st.1)
    (ha : st.1.getConsultationAnswer hash = some a) (h : stepAnswer s st hash = some st') :
    st' = (st.1.setConsultationAnswer hash (a.turn s st.1),
      addChange st.2 (winnerChange s st.1 a)) ∧
    (a.steps s = true → a.wins s st.1 = true → ∃ value, stoll a.sAnswer = some value) := by
  have hSelf : st = (st.1.setConsultationAnswer hash a, st.2) := by
    rw [CStateView.setConsultationAnswer_self ha (hSolid.answer_notNull ha)]
  -- an answer that is passed over is written back as it is
  have hSkip : a.steps s = false → st = (st.1.setConsultationAnswer hash (a.turn s st.1),
      addChange st.2 (winnerChange s st.1 a)) := by
    intro hSteps
    simp only [CConsultationAnswer.turn, winnerChange, hSteps, Bool.not_false, if_true,
      Bool.false_and, Bool.false_eq_true, if_false, addChange]
    exact hSelf
  unfold stepAnswer at h
  rw [ha] at h
  dsimp only at h
  split at h
  case h_1 hBlock =>
    have hSteps : a.steps s = false := by simp [CConsultationAnswer.steps, hBlock]
    exact ⟨(some.inj h).symm.trans (hSkip hSteps), by simp [hSteps]⟩
  case h_2 pblockindex hBlock =>
    rw [hs] at h
    dsimp only at h
    split at h
    case isTrue hEnd =>
      have hSteps : a.steps s = false := by
        rw [Bool.not_eq_true'] at hEnd
        simp [CConsultationAnswer.steps, hEnd]
      exact ⟨(some.inj h).symm.trans (hSkip hSteps), by simp [hSteps]⟩
    case isFalse hEnd =>
      have hSteps : a.steps s = true := by
        rw [Bool.not_eq_true, Bool.not_eq_false'] at hEnd
        simp [CConsultationAnswer.steps, hEnd, hBlock]
      have hTurn : (if a.isSupported s.env st.1 && a.getLastState s.env.mapBlockIndex == .nil then
          a.setState s.pindexNew .accepted else a) = a.supportTurn s st.1 := rfl
      rw [hTurn] at h
      have hAccepted : ∀ v, (a.supportTurn s st.1).isConsensusAccepted s.env
          (st.1.setConsultationAnswer hash v) = a.isConsensusAccepted s.env st.1 := by
        intro v
        rw [CConsultationAnswer.supportTurn_eq]
        rfl
      have hParent : (a.supportTurn s st.1).parent = a.parent := by
        rw [CConsultationAnswer.supportTurn_eq]
      have hText : (a.supportTurn s st.1).sAnswer = a.sAnswer := by
        rw [CConsultationAnswer.supportTurn_eq]
      have hGet : ∀ v, (st.1.setConsultationAnswer hash v).getConsultation a.parent =
          st.1.getConsultation a.parent := fun _ => rfl
      rw [hAccepted, hParent, hText, hGet] at h
      -- three tests in a row decide whether the answer wins
      simp only [CConsultationAnswer.turn, winnerChange, hSteps, Bool.not_true,
        Bool.false_eq_true, if_false, Bool.true_and]
      split at h
      case isFalse hNot =>
        have hLoses : a.wins s st.1 = false := by
          rw [CConsultationAnswer.wins, Bool.eq_false_iff.mpr hNot, Bool.false_and]
        rw [hLoses]
        exact ⟨(some.inj h).symm, fun _ hTrue => by cases hTrue⟩
      case isTrue hWon =>
        split at h
        case h_1 hNone =>
          have hLoses : a.wins s st.1 = false := by simp [CConsultationAnswer.wins, hNone]
          rw [hLoses]
          exact ⟨(some.inj h).symm, fun _ hTrue => by cases hTrue⟩
        case h_2 parent hSome =>
          split at h
          case isFalse hAbout =>
            have hLoses : a.wins s st.1 = false := by
              simp [CConsultationAnswer.wins, hSome, hAbout]
            rw [hLoses]
            exact ⟨(some.inj h).symm, fun _ hTrue => by cases hTrue⟩
          case isTrue hAbout =>
            have hWins : a.wins s st.1 = true := by
              rw [CConsultationAnswer.wins, hWon, hSome]
              exact hAbout
            rw [map_eq_some_iff] at h
            obtain ⟨value, hValue, h⟩ := h
            rw [hWins, hSome, hValue, ← h, CStateView.setConsultationAnswer_twice]
            exact ⟨rfl, fun _ _ => ⟨value, rfl⟩⟩

/-- What the first loop keeps: everything but the answers. -/
structure AnswerLoop (view : CStateView) (st : CStateView × Map Nat Nat) : Prop where
  frame : st.1 = { view with answers := st.1.answers }
  solid : Solid st.1

/-- A turn reads the consultations and the parameters, which the loop keeps. -/
theorem AnswerLoop.turn_eq (h : AnswerLoop view st) (s : StepContext) (a : CConsultationAnswer) :
    a.turn s st.1 = a.turn s view := by
  rw [h.frame]
  rfl

theorem AnswerLoop.winnerChange_eq
    (h : AnswerLoop view st) (s : StepContext) (a : CConsultationAnswer) :
    winnerChange s st.1 a = winnerChange s view a := by
  rw [h.frame]
  rfl

theorem stepAnswer_none
    (h : st.1.getConsultationAnswer hash = none) : stepAnswer s st hash = some st := by
  unfold stepAnswer
  rw [h]

section AnswerLoop

variable {s : StepContext} (hs : s.pindexDelete = none) {view : CStateView}
include hs

variable {st' : CStateView × Map Nat Nat}

theorem stepAnswer_loop {st : CStateView × Map Nat Nat} (h : AnswerLoop view st)
    {hash : UInt256} (hStep : stepAnswer s st hash = some st') : AnswerLoop view st' := by
  cases ha : st.1.getConsultationAnswer hash with
  | none =>
    rw [stepAnswer_none ha] at hStep
    rw [← some.inj hStep]
    exact h
  | some a =>
    rw [(stepAnswer_turn hs h.solid ha hStep).1]
    refine ⟨?_, h.solid.setConsultationAnswer
      (CConsultationAnswer.turn_solid (h.solid.answers hash a ha))⟩
    rw [h.frame]
    rfl

theorem stepAnswer_other {st : CStateView × Map Nat Nat} (h : AnswerLoop view st)
    {hash k : UInt256} (hStep : stepAnswer s st hash = some st') (hne : k ≠ hash) :
    st'.1.getConsultationAnswer k = st.1.getConsultationAnswer k := by
  cases ha : st.1.getConsultationAnswer hash with
  | none =>
    rw [stepAnswer_none ha] at hStep
    rw [← some.inj hStep]
  | some a =>
    have hSolid' : (a.turn s st.1).core.isNull = false :=
      CConsultationAnswer.turn_solid (h.solid.answers hash a ha)
    rw [(stepAnswer_turn hs h.solid ha hStep).1, CStateView.getConsultationAnswer_set
      (CConsultationAnswer.notNull_of_core hSolid'), if_neg (Ne.symm hne)]

/-- **The first loop.** Every answer takes its turn, and the answers of winners are numbers. -/
theorem stepAnswers_spec (hSolid : Solid view)
    (h : view.answers.keys.foldlM (stepAnswer s) (view, ∅) = some st') :
    AnswerLoop view st' ∧ ∀ hash, st'.1.getConsultationAnswer hash =
        (view.getConsultationAnswer hash).map (·.turn s view) ∧
      ∀ a, view.getConsultationAnswer hash = some a → a.steps s = true → a.wins s view = true →
        ∃ value, stoll a.sAnswer = some value := by
  obtain ⟨hLoop, hKeys⟩ := foldlM_turn
    (fun (st : CStateView × Map Nat Nat) hash => st.1.getConsultationAnswer hash)
    (AnswerLoop view) (fun st hash st' hInv hStep => stepAnswer_loop hs hInv hStep)
    (fun st hash st' k hInv hStep hne => stepAnswer_other hs hInv hStep hne)
    (Map.nodup_keys view.answers) (s := (view, ∅)) ⟨rfl, hSolid⟩ h
  refine ⟨hLoop, fun hash => ?_⟩
  cases ha : view.getConsultationAnswer hash with
  | none =>
    have hNot : hash ∉ view.answers.keys := by
      rw [Map.mem_keys_iff]
      intro hSome
      rw [show view.answers[hash]? = none from ha] at hSome
      cases hSome
    exact ⟨((hKeys hash).1 hNot).trans ha, fun a hEq => by cases hEq⟩
  | some a =>
    have hMem : hash ∈ view.answers.keys := by
      rw [Map.mem_keys_iff, show view.answers[hash]? = some a from ha]
      rfl
    obtain ⟨mid, mid', hMid, hSame, hStep, hEnd⟩ := (hKeys hash).2 hMem
    have ha' : mid.1.getConsultationAnswer hash = some a := hSame.trans ha
    obtain ⟨hTurn, hValue⟩ := stepAnswer_turn hs hMid.solid ha' hStep
    have hSolid' : (a.turn s mid.1).core.isNull = false :=
      CConsultationAnswer.turn_solid (hMid.solid.answers hash a ha')
    refine ⟨?_, ?_⟩
    · rw [hEnd, hTurn, CStateView.getConsultationAnswer_set
        (CConsultationAnswer.notNull_of_core hSolid'), if_pos rfl, hMid.turn_eq]
      rfl
    · intro b hb hSteps hWins
      cases hb
      refine hValue hSteps ?_
      rw [hMid.frame]
      exact hWins

/-- The changes that winners ask for, in the order of the answers. -/
def winnerChanges (s : StepContext) (view : CStateView) : List (Nat × Nat) :=
  view.answers.keys.filterMap fun hash =>
    (view.getConsultationAnswer hash).bind (winnerChange s view)

omit hs in
/-- Of several changes of one parameter the first one stays. -/
theorem getElem?_insertChanges (changes : List (Nat × Nat)) (m : Map Nat Nat) (pos : Nat) :
    (changes.foldl (fun m change => m.insertIfNew change.1 change.2) m)[pos]? =
      m[pos]?.or ((changes.find? fun change => change.1 == pos).map (·.2)) := by
  induction changes generalizing m with
  | nil => simp
  | cons change rest ih =>
    rw [List.foldl_cons, ih, getElem?_insertIfNew]
    by_cases hPos : change.1 = pos
    · subst hPos
      by_cases hMem : change.1 ∈ m <;> simp [hMem]
    · have hNe : ¬(compare change.1 pos = .eq) := fun h => hPos (Std.compare_eq_iff_eq.mp h)
      simp [hNe, hPos]

/-- **The changes.** `mapConsensusToChange` holds, for each parameter, the first change that a
winner asks for. -/
theorem stepAnswers_changes (hSolid : Solid view)
    (h : view.answers.keys.foldlM (stepAnswer s) (view, ∅) = some st') (pos : Nat) :
    st'.2[pos]? = ((winnerChanges s view).find? fun change => change.1 == pos).map (·.2) := by
  -- the changes of the answers visited so far, over the answers as they were at the start
  have hInv := foldlM_option_invariant
    (fun done (st : CStateView × Map Nat Nat) => AnswerLoop view st ∧
      (∀ k ∉ done, st.1.getConsultationAnswer k = view.getConsultationAnswer k) ∧
      st.2 = (done.filterMap fun hash => (view.getConsultationAnswer hash).bind
        (winnerChange s view)).foldl (fun m change => m.insertIfNew change.1 change.2) ∅)
    view.answers.keys (b := (view, ∅)) (r := st') ?_ ?_ h
  · rw [hInv.2.2, getElem?_insertChanges]
    simp [winnerChanges]
  · exact ⟨⟨rfl, hSolid⟩, fun _ _ => rfl, rfl⟩
  · intro done hash rest st st1 hl hP hStep
    obtain ⟨hLoop, hSame, hMap⟩ := hP
    have hNot : hash ∉ done := by
      have hNodup := Map.nodup_keys view.answers
      rw [hl, List.nodup_append] at hNodup
      exact fun hMem => hNodup.2.2 _ hMem _ List.mem_cons_self rfl
    refine ⟨stepAnswer_loop hs hLoop hStep, ?_, ?_⟩
    · intro k hk
      rw [List.mem_append, List.mem_singleton, not_or] at hk
      rw [stepAnswer_other hs hLoop hStep hk.2]
      exact hSame k hk.1
    · rw [List.filterMap_append, List.foldl_append, ← hMap]
      cases ha : st.1.getConsultationAnswer hash with
      | none =>
        rw [stepAnswer_none ha] at hStep
        rw [← some.inj hStep]
        rw [hSame hash hNot] at ha
        simp [ha]
      | some a =>
        rw [(stepAnswer_turn hs hLoop.solid ha hStep).1, hLoop.winnerChange_eq]
        rw [hSame hash hNot] at ha
        simp only [List.filterMap_cons, ha, bind_some, List.filterMap_nil]
        cases winnerChange s view a <;> rfl

end AnswerLoop

/-! ## Consultations -/

namespace CConsultation

/-- The consultation with its voting cycle brought up to date, as long as it is not finished. -/
def recount (s : StepContext) (view : CStateView) (pblockindex : CBlockIndex)
    (c : CConsultation) : CConsultation :=
  let bound := getConsensusParameter s.env view .consultationMaxVotingCycles + 1
  let oldState := c.getLastState s.env.mapBlockIndex
  if oldState != .expired && oldState != .passed then
    { c with nVotingCycle := s.nVotingCycles pblockindex bound } else c

/-- The support of a consultation depends on the parameters and on its answers' support. -/
theorem isSupported_congr {env : Env} {view other : CStateView}
    (hParams : view.consensus = other.consensus)
    (hAnswers : ∀ hash, (view.getConsultationAnswer hash).map (fun a => (a.parent, a.nSupport)) =
      (other.getConsultationAnswer hash).map fun a => (a.parent, a.nSupport)) {c : CConsultation} :
    c.isSupported env view = c.isSupported env other := by
  have hSupported : c.supportedAnswers env view = c.supportedAnswers env other := by
    unfold supportedAnswers
    congr 1
    funext it
    have hSame := hAnswers it
    cases ha : view.getConsultationAnswer it with
    | none =>
      rw [ha] at hSame
      rw [map_eq_none_iff.mp hSame.symm]
    | some a =>
      rw [ha] at hSame
      obtain ⟨b, hb, hPair⟩ := map_eq_some_iff.mp hSame.symm
      obtain ⟨hParent, hSupport⟩ := Prod.mk.inj hPair
      rw [hb]
      simp only [CConsultationAnswer.isSupported, getConsensusParameter_congr hParams, hParent,
        hSupport]
  unfold isSupported haveEnoughAnswers
  rw [hSupported, getConsensusParameter_congr hParams, getConsensusParameter_congr hParams]

/-- The consultation after the first half of its turn at a cycle end. -/
def voteTurn (s : StepContext) (view : CStateView) (c : CConsultation) (oldState : Flags) :
    CConsultation :=
  match c.nextState s.env view s.pindexNew oldState with
  | none => c
  | some state => c.setState s.pindexNew state

/-- The consultation after its turn. -/
def turn (s : StepContext) (mapConsensusToChange : Map Nat Nat) (view : CStateView)
    (c : CConsultation) : CConsultation :=
  match s.env.blockOf c.txblockhash with
  | none => c
  | some pblockindex =>
    let oldState := c.getLastState s.env.mapBlockIndex
    let c := c.recount s view pblockindex
    if !s.isCycleEnd then c
    else
      let c := c.voteTurn s view oldState
      if c.isAboutConsensusParameter && mapConsensusToChange.contains c.nMin &&
          oldState == .accepted && c.getLastState s.env.mapBlockIndex != .expired then
        c.setState s.pindexNew .passed
      else c

theorem recount_eq (s : StepContext) (view : CStateView) (pblockindex : CBlockIndex)
    (c : CConsultation) :
    c.recount s view pblockindex =
      { c with nVotingCycle := (c.recount s view pblockindex).nVotingCycle } := by
  dsimp only [recount]
  split <;> rfl

theorem voteTurn_eq (s : StepContext) (view : CStateView) (c : CConsultation) (oldState : Flags) :
    c.voteTurn s view oldState = { c with mapState := (c.voteTurn s view oldState).mapState } := by
  unfold voteTurn
  split <;> rfl

/-- A turn keeps everything but the state and the voting cycle. -/
theorem turn_eq (s : StepContext) (m : Map Nat Nat) (view : CStateView) (c : CConsultation) :
    c.turn s m view = { c with
      mapState := (c.turn s m view).mapState, nVotingCycle := (c.turn s m view).nVotingCycle } := by
  dsimp only [turn]
  split
  · rfl
  · rw [voteTurn_eq, recount_eq]
    split
    · rfl
    · split <;> rfl

end CConsultation

section ConsultationLoop

variable {s : StepContext} (hs : s.pindexDelete = none) {m : Map Nat Nat} {view : CStateView}

/-- What the second loop keeps: everything but the consultations. -/
structure ConsultationLoop (view v : CStateView) : Prop where
  frame : v = { view with consultations := v.consultations }
  solid : Solid v

variable {v : CStateView} {hash : UInt256}

theorem stepConsultation_none
    (h : v.getConsultation hash = none) : stepConsultation s m v hash = v := by
  unfold stepConsultation
  rw [h]

include hs

/-- **One turn of the second loop.** -/
theorem stepConsultation_turn (hSolid : Solid v)
    {c : CConsultation} (hc : v.getConsultation hash = some c) :
    stepConsultation s m v hash = v.setConsultation hash (c.turn s m v) := by
  unfold stepConsultation
  rw [hc]
  dsimp only [CConsultation.turn]
  cases s.env.blockOf c.txblockhash with
  | none => exact (CStateView.setConsultation_self hc (hSolid.consultation_notNull hc)).symm
  | some pblockindex =>
    rw [hs]
    dsimp only
    split <;> rfl

/-- **The second loop.** Every consultation takes its turn, on the answers as the first loop
left them. -/
theorem stepConsultations_spec (hSolid : Solid view) (keys : List UInt256) (hNodup : keys.Nodup)
    (hKeys : ∀ hash, hash ∈ keys ↔ (view.getConsultation hash).isSome = true) :
    ConsultationLoop view (keys.foldl (stepConsultation s m) view) ∧ ∀ hash,
      (keys.foldl (stepConsultation s m) view).getConsultation hash =
        (view.getConsultation hash).map (·.turn s m view) := by
  have hSolid' (v : CStateView) (h : consultationTable.Loop (fun _ c => c.hash ≠ 0) view v) :
      Solid v := by
    rw [h.frame]
    exact ⟨hSolid.proposals, hSolid.paymentRequests, h.good, hSolid.answers⟩
  obtain ⟨hLoop, hTurns⟩ := consultationTable.foldl_write _ (f := stepConsultation s m)
    CConsultation.notNull_of_hash (CConsultation.turn s m view)
    (fun hHash => by
      rw [CConsultation.turn_eq]
      exact hHash)
    (fun _ _ => stepConsultation_none) (fun v hash c hv hc => by
      have hTurn : c.turn s m v = c.turn s m view := by
        rw [hv.frame]
        rfl
      rw [stepConsultation_turn hs (hSolid' v hv) hc, hTurn]
      rfl)
    hNodup hKeys hSolid.consultations
  exact ⟨⟨hLoop.frame, hSolid' _ hLoop⟩, hTurns⟩

end ConsultationLoop

/-! ## Parameters -/

theorem CConsensusParameter.getElem?_set (c : CConsensusParameter) (height val h : Nat) :
    (c.set height val).list[h]? = if height = h then some val else c.list[h]? := by
  simp [CConsensusParameter.set, getElem?_insert]

/-- The history of a parameter in a view. -/
def CStateView.history (view : CStateView) (pos : Nat) : CConsensusParameter :=
  view.consensus[pos]?.getD ⟨∅⟩

/-- **The parameters.** Those in `mapConsensusToChange` get their new value at the block's
height, and everything else stays. -/
theorem setParameters_spec (height : Nat) (changes : Map Nat Nat) (view : CStateView) :
    setParameters height changes view =
      { view with consensus := (setParameters height changes view).consensus } ∧
    ∀ pos, (setParameters height changes view).consensus[pos]? = match changes[pos]? with
      | none => view.consensus[pos]?
      | some value => some ((view.history pos).set height value) := by
  unfold setParameters
  rw [foldl_eq_foldl_toList]
  -- the parameters visited so far are changed, the others not yet
  have hInv := foldl_invariant
    (f := fun (v : CStateView) (it : Nat × Nat) =>
      v.modifyConsensusParameter it.1 (·.set height it.2))
    (fun done v => v = { view with consensus := v.consensus } ∧
      ∀ pos, v.consensus[pos]? = match (done.find? fun it => it.1 == pos) with
        | none => view.consensus[pos]?
        | some it => some ((view.history pos).set height it.2))
    changes.toList (b := view) ⟨rfl, fun _ => rfl⟩ ?_
  · refine ⟨hInv.1, fun pos => ?_⟩
    rw [hInv.2]
    cases hc : changes[pos]? with
    | none =>
      have hNone : (changes.toList.find? fun it => it.1 == pos) = none := by
        rw [List.find?_eq_none]
        intro it hIt hEq
        have hMem := mem_toList_iff_getElem?_eq_some.mp hIt
        rw [beq_iff_eq.mp hEq, hc] at hMem
        cases hMem
      rw [hNone]
    | some value =>
      have hMem : (pos, value) ∈ changes.toList :=
        mem_toList_iff_getElem?_eq_some.mpr hc
      cases hFind : changes.toList.find? fun it => it.1 == pos with
      | none => exact absurd (List.find?_eq_none.mp hFind _ hMem) (by simp)
      | some it =>
        have hKey : it.1 = pos := by simpa using List.find?_some hFind
        have hIt := mem_toList_iff_getElem?_eq_some.mp
          (List.mem_of_find?_eq_some hFind)
        rw [hKey, hc] at hIt
        rw [some.inj hIt]
  · intro done it rest v hl hP
    have hFresh : (done.find? fun x => x.1 == it.1) = none := by
      rw [List.find?_eq_none]
      intro x hx hEq
      have hDistinct := distinct_keys_toList (t := changes)
      rw [hl, List.pairwise_append] at hDistinct
      exact hDistinct.2.2 x hx it List.mem_cons_self
        (Std.compare_eq_iff_eq.mpr (beq_iff_eq.mp hEq))
    refine ⟨?_, fun pos => ?_⟩
    · rw [hP.1]
      rfl
    · have hNotNull : CConsensusParameter.isNull
          ((v.consensus[it.1]?.getD ⟨∅⟩).set height it.2) = false := by
        simp [CConsensusParameter.isNull, CConsensusParameter.set]
      show (Map.setUnless CConsensusParameter.isNull v.consensus it.1 _)[pos]? = _
      rw [Map.getElem?_setUnless, hNotNull, List.find?_append]
      by_cases hPos : it.1 = pos
      · subst hPos
        have hOld : v.consensus[it.1]? = view.consensus[it.1]? := by
          rw [hP.2 it.1, hFresh]
        rw [hFresh, hOld]
        simp [CStateView.history]
      · rw [hP.2 pos]
        cases done.find? fun x => x.1 == pos <;> simp [hPos]

end Electrum
