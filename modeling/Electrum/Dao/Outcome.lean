import Electrum.Dao.StepRun

/-!
# What a won consultation does

At the end of a cycle an answer that won changes the parameter its consultation is about, and
the consultation itself becomes PASSED.  The two loops that do this share nothing but
`mapConsensusToChange`, which is keyed by the parameter.  So they agree on a consultation only
when nothing else interferes.

Main results:
* `CConsultationAnswer.turn_passed_iff`, `CConsultation.turn_passed_iff` — when a turn ends in
  PASSED
* `voteStep_outcome_iff` — when the outcome of a consultation matches the change
-/

namespace Electrum

open CConsultationAnswer Option

/-! ## One turn -/

section Turns

variable {s : StepContext}

/-- **Answers.** An answer enters PASSED when it wins. -/
theorem CConsultationAnswer.turn_passed_iff {view : CStateView} {a : CConsultationAnswer}
    (hFresh : a.mapState[s.pindexNew.phashBlock]? = none) :
    (a.turn s view).mapState[s.pindexNew.phashBlock]? = some .passed ↔
      a.steps s = true ∧ a.wins s view = true := by
  unfold turn
  cases hSteps : a.steps s with
  | false => simp [hFresh]
  | true =>
    cases hWins : a.wins s view with
    | true => simp [setState, StateMap.getElem?_setState]
    | false =>
      have hSupport : (a.supportTurn s view).mapState[s.pindexNew.phashBlock]? ≠ some .passed := by
        unfold supportTurn
        split
        · simp [setState, StateMap.getElem?_setState]
        · simp [hFresh]
      simp [hSupport]

namespace CConsultation

variable {view : CStateView} {c : CConsultation}

/-- The expiry of a consultation under vote depends on the parameters and on its states. -/
theorem isExpired_accepted {env : Env} {other : CStateView} {pindex : CBlockIndex}
    {d : CConsultation} (hView : view.consensus = other.consensus)
    (hState : c.mapState = d.mapState) (hAccepted : c.getLastState env.mapBlockIndex = .accepted) :
    c.isExpired env view pindex = d.isExpired env other pindex := by
  have hAccepted' : d.getLastState env.mapBlockIndex = .accepted := by
    unfold getLastState
    rw [← hState]
    exact hAccepted
  unfold isExpired
  simp only [hAccepted, hAccepted', hState, getConsensusParameter_congr hView]
  cases d.mapState.getLastStateBlockIndexForState env.mapBlockIndex .accepted with
  | some _ => rfl
  | none =>
    have hNil : (Flags.accepted == Flags.nil) = false := rfl
    simp [hNil]

/-- Under vote, the first half of a turn can only make the consultation expire. -/
theorem nextState_accepted {env : Env} {pindex : CBlockIndex} :
    c.nextState env view pindex .accepted =
      if c.isExpired env view pindex then some .expired else none := by
  unfold nextState
  cases c.isExpired env view pindex <;> cases c.isSupported env view <;> simp

/-- The first half of a turn never ends in PASSED. -/
theorem voteTurn_not_passed {oldState : Flags}
    (hFresh : c.mapState[s.pindexNew.phashBlock]? = none) :
    (c.voteTurn s view oldState).mapState[s.pindexNew.phashBlock]? ≠ some .passed := by
  unfold voteTurn
  cases hNext : c.nextState s.env view s.pindexNew oldState with
  | none => simp [hFresh]
  | some state =>
    have hState : state ≠ .passed := by
      rintro rfl
      unfold nextState at hNext
      split at hNext <;> repeat' split at hNext
      all_goals cases hNext
    simpa [setState, StateMap.getElem?_setState] using hState

/-- **Consultations.** A consultation enters PASSED when it is under vote, does not expire at
this block, and any answer changed its parameter. -/
theorem turn_passed_iff {m : Map Nat Nat} {n : Nat}
    (hBelow : c.mapState.Below s.env.mapBlockIndex n)
    (hKnown : s.env.mapBlockIndex[s.pindexNew.phashBlock]? = some s.pindexNew)
    (hAbove : n < s.pindexNew.nHeight) (hEnd : s.isCycleEnd = true)
    (hBlock : (s.env.blockOf c.txblockhash).isSome = true)
    (hAbout : c.isAboutConsensusParameter = true) :
    (c.turn s m view).mapState[s.pindexNew.phashBlock]? = some .passed ↔
      c.getLastState s.env.mapBlockIndex = .accepted ∧
      c.isExpired s.env view s.pindexNew = false ∧ m.contains c.nMin = true := by
  obtain ⟨pblockindex, hPblock⟩ := isSome_iff_exists.mp hBlock
  have hFresh := hBelow.fresh hKnown hAbove
  have hRecount : (c.recount s view pblockindex).mapState = c.mapState := by
    rw [recount_eq]
  dsimp only [turn]
  rw [hPblock]
  simp only [hEnd, Bool.not_true, Bool.false_eq_true, if_false]
  have hNot : ((c.recount s view pblockindex).voteTurn s view
      (c.getLastState s.env.mapBlockIndex)).mapState[s.pindexNew.phashBlock]? ≠ some .passed :=
    voteTurn_not_passed (by rw [hRecount]; exact hFresh)
  by_cases hAccepted : c.getLastState s.env.mapBlockIndex = .accepted
  · -- under vote: the first half leaves the consultation alone or makes it expire
    have hExpired : (c.recount s view pblockindex).isExpired s.env view s.pindexNew =
        c.isExpired s.env view s.pindexNew :=
      (isExpired_accepted rfl hRecount.symm hAccepted).symm
    rw [hAccepted] at hNot ⊢
    have hTurn : (c.recount s view pblockindex).voteTurn s view .accepted =
        if c.isExpired s.env view s.pindexNew then
          (c.recount s view pblockindex).setState s.pindexNew .expired
        else c.recount s view pblockindex := by
      unfold voteTurn
      rw [nextState_accepted, hExpired]
      cases c.isExpired s.env view s.pindexNew <;> rfl
    rw [hTurn] at hNot ⊢
    cases hExp : c.isExpired s.env view s.pindexNew with
    | true =>
      have hLast : ((c.recount s view pblockindex).setState s.pindexNew .expired).getLastState
          s.env.mapBlockIndex = .expired := by
        show ((c.recount s view pblockindex).mapState.setState s.pindexNew
          .expired).getLastState s.env.mapBlockIndex = .expired
        rw [hRecount]
        exact hBelow.getLastState_setState hKnown hAbove .expired
      rw [hExp] at hNot
      simp only [if_true] at hNot ⊢
      simp [hLast, hNot]
    | false =>
      have hLast : (c.recount s view pblockindex).getLastState s.env.mapBlockIndex =
          .accepted := by
        show (c.recount s view pblockindex).mapState.getLastState s.env.mapBlockIndex = .accepted
        rw [hRecount]
        exact hAccepted
      have hMin : (c.recount s view pblockindex).nMin = c.nMin := by rw [recount_eq]
      have hAbout' : (c.recount s view pblockindex).isAboutConsensusParameter = true := by
        rw [recount_eq]
        exact hAbout
      simp only [Bool.false_eq_true, if_false, hLast, hMin, hAbout', true_and, Bool.true_and]
      cases hMem : m.contains c.nMin with
      | true => simp [setState, StateMap.getElem?_setState]
      | false => simp [hRecount, hFresh]
  · have hBeq : (c.getLastState s.env.mapBlockIndex == Flags.accepted) = false := by
      simpa using hAccepted
    simp [hBeq, hAccepted, hNot]

end CConsultation

end Turns

/-! ## The outcome of one consultation -/

/-- The answer under `k` belongs to the consultation `hash` and entered PASSED at the block. -/
def EntersPassed (pindex : CBlockIndex) (view : CStateView) (hash k : UInt256)
    (a : CConsultationAnswer) : Prop :=
  view.getConsultationAnswer k = some a ∧ a.parent = hash ∧
    a.mapState[pindex.phashBlock]? = some .passed

/-- The outcome of the consultation `hash` about the parameter `pos` matches the applied change:
it entered PASSED exactly when one of its answers did, and the value stored for the block is
that of the answer. -/
structure OutcomeMatches (pindex : CBlockIndex) (view : CStateView) (hash : UInt256)
    (pos : Nat) : Prop where
  passed : (∃ c, view.getConsultation hash = some c ∧
      c.mapState[pindex.phashBlock]? = some .passed) ↔
    ∃ k a, EntersPassed pindex view hash k a
  value : ∀ k a, EntersPassed pindex view hash k a → ∃ value, stoll a.sAnswer = some value ∧
    (view.history pos).list[pindex.nHeight]? = some (toU64 value)

/-- On the counted votes, the answer under `k` belongs to the consultation `hash` and wins. -/
def OwnWinner (s : StepContext) (counted : CStateView) (hash k : UInt256)
    (a : CConsultationAnswer) : Prop :=
  counted.getConsultationAnswer k = some a ∧ a.parent = hash ∧ a.steps s = true ∧
    a.wins s counted = true

/-- The value of the first winner for a parameter, in the order of the answers' keys. -/
def leadingValue (s : StepContext) (counted : CStateView) (pos : Nat) : Option Nat :=
  ((winnerChanges s counted).find? fun change => change.1 == pos).map (·.2)

/-- Nothing interferes with the consultation `c`: its answers win only while it is under vote
and has not run out of cycles, a winner of another consultation about the same parameter does
not come first with another value, and none wins when its own answers do not. -/
@[mk_iff]
structure VotedAlone (s : StepContext) (view counted : CStateView) (hash : UInt256)
    (c : CConsultation) : Prop where
  underVote : ∀ k a, OwnWinner s counted hash k a →
    c.getLastState s.env.mapBlockIndex = .accepted ∧ c.isExpired s.env view s.pindexNew = false
  leads : ∀ k a, OwnWinner s counted hash k a → ∀ value, stoll a.sAnswer = some value →
    leadingValue s counted c.nMin = some (toU64 value)
  unopposed : (∀ k a, ¬OwnWinner s counted hash k a) →
    c.getLastState s.env.mapBlockIndex = .accepted → c.isExpired s.env view s.pindexNew = false →
    leadingValue s counted c.nMin = none

instance (s : StepContext) (counted : CStateView) (hash : UInt256)
    (P : UInt256 → CConsultationAnswer → Prop) [∀ k a, Decidable (P k a)] :
    Decidable (∀ k a, OwnWinner s counted hash k a → P k a) :=
  decidable_of_iff (∀ k a, counted.getConsultationAnswer k = some a →
    a.parent = hash ∧ a.steps s = true ∧ a.wins s counted = true → P k a)
    (by simp only [OwnWinner, and_imp])

instance (s : StepContext) (view counted : CStateView) (hash : UInt256) (c : CConsultation) :
    Decidable (VotedAlone s view counted hash c) :=
  decidable_of_iff _ (votedAlone_iff s view counted hash c).symm

namespace StepRun

variable {s : StepContext} {fCFund : Bool} {cache : VoteCache} {fund fund' : Fund}
  {view view' : CStateView} (run : StepRun s fCFund true cache fund view fund' view')
  (hs : s.pindexDelete = none) (hSolid : Solid view) {n : Nat}
  (hBelow : StatesBelow s.env n view)
  (hKnown : s.env.mapBlockIndex[s.pindexNew.phashBlock]? = some s.pindexNew)
  (hAbove : n < s.pindexNew.nHeight)

include hs hSolid

variable {hash : UInt256} {c : CConsultation}

/-- A winner of a consultation asks for a change of its parameter. -/
theorem ownWinner_leading {k : UInt256} {a : CConsultationAnswer}
    (hc : run.counted.getConsultation hash = some c) (ha : OwnWinner s run.counted hash k a) :
    (leadingValue s run.counted c.nMin).isSome = true ∧ ∃ value, stoll a.sAnswer = some value := by
  obtain ⟨hGet, hParent, hSteps, hWins⟩ := ha
  have hFrame := (run.decided_frame hs hSolid).1
  have hGet' : run.decided.getConsultationAnswer k = some a := by
    rw [hFrame]
    exact hGet
  have hWins' : a.wins s run.decided = true := by
    rw [hFrame]
    exact hWins
  obtain ⟨value, hValue⟩ := (run.dao hs hSolid rfl).numbers k a hGet' hSteps hWins'
  refine ⟨?_, value, hValue⟩
  have hChange : winnerChange s run.counted a = some (c.nMin, toU64 value) := by
    simp [winnerChange, hSteps, hWins, hParent, hc, hValue]
  have hMem : (c.nMin, toU64 value) ∈ winnerChanges s run.counted := by
    refine List.mem_filterMap.mpr ⟨k, ?_, ?_⟩
    · rw [Map.mem_keys_iff, show run.counted.answers[k]? = some a from hGet]
      rfl
    · rw [hGet]
      exact hChange
  rw [leadingValue, isSome_map, List.find?_isSome]
  exact ⟨_, hMem, beq_self_eq_true _⟩

/-- The first winner's value is the one that is stored. -/
theorem stored_leading {pos value : Nat} (h : leadingValue s run.counted pos = some value) :
    (view'.history pos).list[s.pindexNew.nHeight]? = some value := by
  have hHistory := run.history hs hSolid pos
  rw [run.changes_counted hs hSolid rfl pos] at hHistory
  rw [leadingValue] at h
  rw [h] at hHistory
  rw [CStateView.history, hHistory, getD_some, CConsensusParameter.getElem?_set, if_pos rfl]

include hBelow hKnown hAbove

/-- An answer of the counted view enters PASSED when it wins. -/
theorem entersPassed_iff (k : UInt256) (text : String) (hash : UInt256) :
    (∃ a, EntersPassed s.pindexNew view' hash k a ∧ a.sAnswer = text) ↔
      ∃ a, OwnWinner s run.counted hash k a ∧ a.sAnswer = text := by
  have hAnswers := run.answers hs hSolid rfl k
  have hSame := (run.counted_countsOnly hs hSolid).answers k
  cases hCounted : run.counted.getConsultationAnswer k with
  | none =>
    rw [hCounted] at hAnswers
    have hNone : view'.getConsultationAnswer k = none := by
      cases hView : view'.getConsultationAnswer k with
      | none => rfl
      | some _ =>
        rw [hView] at hAnswers
        cases hAnswers
    simp [EntersPassed, OwnWinner, hNone, hCounted]
  | some a =>
    rw [hCounted] at hAnswers hSame
    obtain ⟨a', hFinal, hCore⟩ := map_eq_some_iff.mp hAnswers
    obtain ⟨old, hOld, hOldCore⟩ := Map.core_of_some hSame rfl
    have hMap : a.mapState = old.mapState := by
      rw [eq_of_core hOldCore]
    have hFresh : a.mapState[s.pindexNew.phashBlock]? = none := by
      rw [hMap]
      exact (hBelow.answers k old hOld).fresh hKnown hAbove
    have hPassed : a'.mapState[s.pindexNew.phashBlock]? = some .passed ↔
        a.steps s = true ∧ a.wins s run.counted = true := by
      rw [← turn_passed_iff hFresh, eq_of_core hCore]
    have hParent : a'.parent = a.parent := by
      rw [eq_of_core hCore, turn_eq]
    have hText : a'.sAnswer = a.sAnswer := by
      rw [eq_of_core hCore, turn_eq]
    simp only [EntersPassed, OwnWinner, hFinal, hCounted, some.injEq]
    constructor
    · rintro ⟨b, ⟨rfl, hb, hbPassed⟩, hbText⟩
      exact ⟨a, ⟨rfl, hParent.symm.trans hb, hPassed.mp hbPassed⟩, hText.symm.trans hbText⟩
    · rintro ⟨b, ⟨rfl, hb, hbWins⟩, hbText⟩
      exact ⟨a', ⟨rfl, hParent.trans hb, hPassed.mpr hbWins⟩, hText.trans hbText⟩

/-- A consultation of the view enters PASSED when it is under vote, does not expire at this
block, and some answer wins about its parameter. -/
theorem consultation_passed_iff
    (hc : view.getConsultation hash = some c) (hEnd : s.isCycleEnd = true)
    (hBlock : (s.env.blockOf c.txblockhash).isSome = true)
    (hAbout : c.isAboutConsensusParameter = true) :
    (∃ c', view'.getConsultation hash = some c' ∧
      c'.mapState[s.pindexNew.phashBlock]? = some .passed) ↔
    c.getLastState s.env.mapBlockIndex = .accepted ∧ c.isExpired s.env view s.pindexNew = false ∧
      (leadingValue s run.counted c.nMin).isSome = true := by
  have hCounts := run.counted_countsOnly hs hSolid
  obtain ⟨v, hParams, -, hTurns⟩ := run.consultations hs hSolid rfl
  obtain ⟨d, hd, hdCore⟩ := Map.core_of_some (hCounts.consultations hash).symm hc
  have hTurn := hTurns hash
  rw [hd] at hTurn
  obtain ⟨c', hc', hCore⟩ := map_eq_some_iff.mp hTurn
  have hMap : d.mapState = c.mapState := by rw [CConsultation.eq_of_core hdCore]
  have hMin : d.nMin = c.nMin := by rw [CConsultation.eq_of_core hdCore]
  have hVersion : d.nVersion = c.nVersion := by rw [CConsultation.eq_of_core hdCore]
  have hTx : d.txblockhash = c.txblockhash := by rw [CConsultation.eq_of_core hdCore]
  -- its turn, with the votes counted, decides
  have hPassed : (d.turn s run.changes v).mapState[s.pindexNew.phashBlock]? = some .passed ↔
      d.getLastState s.env.mapBlockIndex = .accepted ∧
      d.isExpired s.env v s.pindexNew = false ∧ run.changes.contains d.nMin = true :=
    CConsultation.turn_passed_iff
      (by rw [hMap]; exact hBelow.consultations hash c hc) hKnown hAbove hEnd
      (by rw [hTx]; exact hBlock)
      (by rw [CConsultation.isAboutConsensusParameter, hVersion]; exact hAbout)
  have hState : d.getLastState s.env.mapBlockIndex = c.getLastState s.env.mapBlockIndex := by
    unfold CConsultation.getLastState
    rw [hMap]
  have hContains : run.changes.contains d.nMin = true ↔
      (leadingValue s run.counted c.nMin).isSome = true := by
    rw [Std.ExtTreeMap.contains_eq_isSome_getElem?, run.changes_counted hs hSolid rfl, hMin]
    rfl
  rw [hState, hContains] at hPassed
  have hFinal : (∃ c', view'.getConsultation hash = some c' ∧
      c'.mapState[s.pindexNew.phashBlock]? = some .passed) ↔
      (d.turn s run.changes v).mapState[s.pindexNew.phashBlock]? = some .passed := by
    have hMap' : c'.mapState = (d.turn s run.changes v).mapState := by
      rw [CConsultation.eq_of_core hCore]
    simp [hc', hMap']
  rw [hFinal, hPassed]
  refine and_congr_right fun hAccepted => ?_
  rw [CConsultation.isExpired_accepted (hParams.trans hCounts.consensus) hMap
    (hState.trans hAccepted)]

/-- The outcome of a consultation matches the change exactly when it was voted on alone. -/
theorem outcome_iff (hc : view.getConsultation hash = some c) (hEnd : s.isCycleEnd = true)
    (hBlock : (s.env.blockOf c.txblockhash).isSome = true)
    (hAbout : c.isAboutConsensusParameter = true) :
    OutcomeMatches s.pindexNew view' hash c.nMin ↔ VotedAlone s view run.counted hash c := by
  have hConsultation := run.consultation_passed_iff hs hSolid hBelow hKnown hAbove hc hEnd
    hBlock hAbout
  have hAnswer := run.entersPassed_iff hs hSolid hBelow hKnown hAbove
  obtain ⟨d, hd, hdCore⟩ := Map.core_of_some
    ((run.counted_countsOnly hs hSolid).consultations hash).symm hc
  have hLeading : ∀ k a, OwnWinner s run.counted hash k a →
      (leadingValue s run.counted c.nMin).isSome = true ∧
        ∃ value, stoll a.sAnswer = some value := by
    intro k a ha
    rw [show c.nMin = d.nMin by rw [CConsultation.eq_of_core hdCore]]
    exact run.ownWinner_leading hs hSolid hd ha
  constructor
  · intro hMatches
    -- an own winner enters PASSED, so the match speaks of it
    have hWinner :=
      fun k a ha => (hAnswer k a.sAnswer hash).mpr ⟨a, ha, rfl⟩
    refine ⟨fun k a ha => ?_, fun k a ha value hValue => ?_, fun hNone hAccepted hExpired => ?_⟩
    · obtain ⟨b, hb, -⟩ := hWinner k a ha
      obtain ⟨hAccepted, hExpired, -⟩ := hConsultation.mp (hMatches.passed.mpr ⟨k, b, hb⟩)
      exact ⟨hAccepted, hExpired⟩
    · obtain ⟨b, hb, hText⟩ := hWinner k a ha
      obtain ⟨v, hLead⟩ := isSome_iff_exists.mp (hLeading k a ha).1
      obtain ⟨value', hValue', hStored⟩ := hMatches.value k b hb
      rw [hText, hValue] at hValue'
      rw [run.stored_leading hs hSolid hLead, ← some.inj hValue'] at hStored
      rw [hLead, hStored]
    · by_contra hSome
      obtain ⟨k, b, hb⟩ := hMatches.passed.mp (hConsultation.mpr
        ⟨hAccepted, hExpired, isSome_iff_ne_none.mpr hSome⟩)
      obtain ⟨a, ha, -⟩ := (hAnswer k b.sAnswer hash).mp ⟨b, hb, rfl⟩
      exact hNone k a ha
  · rintro ⟨hVote, hLeads, hUnopposed⟩
    refine ⟨⟨fun hPassed => ?_, ?_⟩, ?_⟩
    · obtain ⟨hAccepted, hExpired, hLead⟩ := hConsultation.mp hPassed
      by_contra hNone
      refine isSome_iff_ne_none.mp hLead (hUnopposed (fun k a ha => hNone ?_)
        hAccepted hExpired)
      obtain ⟨b, hb, -⟩ := (hAnswer k a.sAnswer hash).mpr ⟨a, ha, rfl⟩
      exact ⟨k, b, hb⟩
    · rintro ⟨k, b, hb⟩
      obtain ⟨a, ha, -⟩ := (hAnswer k b.sAnswer hash).mp ⟨b, hb, rfl⟩
      obtain ⟨hAccepted, hExpired⟩ := hVote k a ha
      exact hConsultation.mpr ⟨hAccepted, hExpired, (hLeading k a ha).1⟩
    · intro k b hb
      obtain ⟨a, ha, hText⟩ := (hAnswer k b.sAnswer hash).mp ⟨b, hb, rfl⟩
      obtain ⟨value, hValue⟩ := (hLeading k a ha).2
      refine ⟨value, hText ▸ hValue, ?_⟩
      exact run.stored_leading hs hSolid (hLeads k a ha value hValue)

end StepRun

/-- Before the deployment nothing enters PASSED. -/
theorem StepRun.inactive_outcome {s : StepContext} {fCFund : Bool} {cache : VoteCache}
    {fund fund' : Fund} {view view' : CStateView}
    (run : StepRun s fCFund false cache fund view fund' view') (hs : s.pindexDelete = none)
    (hSolid : Solid view) {n : Nat} (hBelow : StatesBelow s.env n view)
    (hKnown : s.env.mapBlockIndex[s.pindexNew.phashBlock]? = some s.pindexNew)
    (hAbove : n < s.pindexNew.nHeight) (hash : UInt256) (pos : Nat) :
    OutcomeMatches s.pindexNew view' hash pos := by
  obtain ⟨-, hAnswers, hConsultations⟩ := run.inactive hs hSolid
  have hNoAnswer : ∀ k a, ¬EntersPassed s.pindexNew view' hash k a := by
    rintro k a ⟨hGet, -, hPassed⟩
    obtain ⟨old, hOld, hCore⟩ := Map.core_of_some (hAnswers k) hGet
    have hMap : a.mapState = old.mapState := by rw [eq_of_core hCore]
    rw [hMap, (hBelow.answers k old hOld).fresh hKnown hAbove] at hPassed
    cases hPassed
  refine ⟨⟨?_, ?_⟩, fun k a ha => absurd ha (hNoAnswer k a)⟩
  · rintro ⟨c, hGet, hPassed⟩
    obtain ⟨old, hOld, hCore⟩ := Map.core_of_some (hConsultations hash) hGet
    have hMap : c.mapState = old.mapState := by rw [CConsultation.eq_of_core hCore]
    rw [hMap, (hBelow.consultations hash old hOld).fresh hKnown hAbove] at hPassed
    cases hPassed
  · rintro ⟨k, a, ha⟩
    exact absurd ha (hNoAnswer k a)

/-- **The outcome of a consultation.** At the end of a cycle the outcome of a consultation about
a parameter matches the applied change exactly when the consultation was voted on alone. -/
theorem voteStep_outcome_iff {env : Env} {votes : RecordedVotes} {pindex : CBlockIndex}
    {pprev : Chain} {fund : Fund} {view : CStateView} {cache : VoteCache}
    {r : CStateView × Fund × VoteCache}
    (h : voteStep env votes (pindex :: pprev) false fund view cache = some r)
    (hSolid : Solid view) {n : Nat} (hBelow : StatesBelow env n view)
    (hKnown : env.mapBlockIndex[pindex.phashBlock]? = some pindex) (hAbove : n < pindex.nHeight)
    (hEnd : (pindex.nHeight + 1) % getConsensusParameter env view .votingCycleLength = 0)
    {hash : UInt256} {c : CConsultation} (hc : view.getConsultation hash = some c)
    (hBlock : (env.blockOf c.txblockhash).isSome = true)
    (hAbout : c.isAboutConsensusParameter = true) :
    OutcomeMatches pindex r.1 hash c.nMin ↔
      (env.isActive .consultations pprev = true →
        VotedAlone (.connecting env votes pindex pprev view cache) view
          (countedView env votes pindex pprev view cache) hash c) := by
  obtain ⟨-, -, hRun⟩ := voteStep_run h
  cases hDAO : env.isActive .consultations pprev with
  | false =>
    rw [hDAO] at hRun
    obtain ⟨run, -⟩ := hRun
    refine ⟨fun _ hTrue => absurd hTrue Bool.false_ne_true, fun _ => ?_⟩
    exact run.inactive_outcome rfl hSolid hBelow hKnown hAbove hash c.nMin
  | true =>
    rw [hDAO] at hRun
    obtain ⟨run, hCounted⟩ := hRun
    rw [← hCounted]
    refine (run.outcome_iff rfl hSolid hBelow hKnown hAbove hc (beq_iff_eq.mpr hEnd) hBlock
      hAbout).trans ?_
    exact ⟨fun hAlone _ => hAlone, fun hAlone => hAlone rfl⟩

/-! ## The last cycle of a vote -/

/-- A block of a small chain; its hash is its height. -/
def smallBlock (height : Nat) : CBlockIndex := ⟨height, height, height, 0⟩

/-- The first blocks of a small chain, tip first. -/
def smallChain (n : Nat) : Chain := ((List.range n).map fun i => smallBlock (i + 1)).reverse

/-- Twelve known blocks, and every deployment active. -/
def smallEnv : Env where
  params := mainParams
  mapBlockIndex := (smallChain 12).foldl (fun m b => m.insert b.phashBlock b) ∅
  isActive _ _ := true

/-- Cycles of two blocks. -/
def shortCycles : Map Nat CConsensusParameter :=
  (∅ : Map Nat CConsensusParameter).insert ConsensusParamsPos.votingCycleLength.idx
    ⟨(∅ : Map Nat Nat).insert 1 2⟩

/-- A consultation about the minimum quorum of proposals, under vote since `height`. -/
def quorumConsultation (height : Nat) : CConsultation where
  mapState := (∅ : StateMap).insert height .accepted
  hash := 100
  txblockhash := 1
  nVersion := 13
  nVotingCycle := 0
  strDZeel := "quorum"
  nSupport := 0
  nMin := ConsensusParamsPos.proposalMinQuorum.idx
  nMax := 1
  mapVotes := ∅
  vAnswers := [101]
  nExclude := 0

/-- Its only answer. -/
def quorumAnswer (height : Nat) : CConsultationAnswer where
  nVersion := 1
  sAnswer := "5000"
  nVotes := 0
  nSupport := 0
  nExclude := 0
  mapState := (∅ : StateMap).insert height .accepted
  hash := 101
  parent := 100
  txblockhash := 1
  txhash := 1

def quorumView (height : Nat) : CStateView :=
  { CStateView.empty with
    consensus := shortCycles
    consultations := (∅ : Map UInt256 CConsultation).insert 100 (quorumConsultation height)
    answers := (∅ : Map UInt256 CConsultationAnswer).insert 101 (quorumAnswer height) }

/-- Both blocks of the cycle vote for the answer. -/
def quorumVotes : RecordedVotes :=
  let votes : Map UInt256 Nat := (∅ : Map UInt256 Nat).insert 101 1
  { RecordedVotes.empty with
    mapConsultationVotes := (∅ : Map UInt256 (Map UInt256 Nat)).insert 8 votes |>.insert 9 votes }

/-- Under vote since height 3, the consultation is in its fourth cycle and passes. -/
theorem voteStep_outcome_quorum :
    ∃ r, voteStep smallEnv quorumVotes (smallBlock 9 :: smallChain 8) false ⟨0, 0⟩ (quorumView 3)
        .init = some r ∧
      OutcomeMatches (smallBlock 9) r.1 100 ConsensusParamsPos.proposalMinQuorum.idx := by
  obtain ⟨r, hr⟩ := Option.isSome_iff_exists.mp (show (voteStep smallEnv quorumVotes
    (smallBlock 9 :: smallChain 8) false ⟨0, 0⟩ (quorumView 3) .init).isSome = true by
      decide +kernel)
  have hMatches := voteStep_outcome_iff hr (by decide +kernel) (n := 8) (by decide +kernel)
    (by decide +kernel) (by decide) (by decide +kernel) (c := quorumConsultation 3)
    (show (quorumView 3).getConsultation 100 = _ by decide +kernel) (by decide +kernel)
    (by decide +kernel)
  exact ⟨r, hr, hMatches.mpr fun _ => by decide +kernel⟩

/-- Under vote since height 1, it runs out of cycles at the block at which its answer wins: the
parameter changes and the consultation expires. -/
theorem voteStep_outcome_expired :
    ∃ r, voteStep smallEnv quorumVotes (smallBlock 9 :: smallChain 8) false ⟨0, 0⟩ (quorumView 1)
        .init = some r ∧
      (r.1.getConsultation 100).map (·.mapState[9]?) = some (some .expired) ∧
      (r.1.history ConsensusParamsPos.proposalMinQuorum.idx).list[9]? = some 5000 ∧
      ¬OutcomeMatches (smallBlock 9) r.1 100 ConsensusParamsPos.proposalMinQuorum.idx := by
  obtain ⟨r, hr, hExpired, hStored, hPassed⟩ : ∃ r, voteStep smallEnv quorumVotes
      (smallBlock 9 :: smallChain 8) false ⟨0, 0⟩ (quorumView 1) .init = some r ∧
      (r.1.getConsultation 100).map (·.mapState[9]?) = some (some .expired) ∧
      (r.1.history ConsensusParamsPos.proposalMinQuorum.idx).list[9]? = some 5000 ∧
      (r.1.getConsultationAnswer 101).map (fun a => (a.parent, a.mapState[9]?)) =
        some (100, some .passed) := by
    decide +kernel
  refine ⟨r, hr, hExpired, hStored, fun hMatches => ?_⟩
  obtain ⟨a, ha, haEq⟩ := Option.map_eq_some_iff.mp hPassed
  rw [Prod.mk.injEq] at haEq
  obtain ⟨c, hc, hcPassed⟩ := hMatches.passed.mpr ⟨101, a, ha, haEq⟩
  rw [hc] at hExpired
  have hEq : (some Flags.passed : Option Flags) = some .expired :=
    hcPassed.symm.trans (Option.some.inj hExpired)
  cases hEq

end Electrum
