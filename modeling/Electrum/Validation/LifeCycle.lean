import Electrum.Validation.Finality

/-!
# The life cycle of a consultation

A consultation is supported, reflected upon, accepted, and in the end passes or expires; one
that finds no support expires.  Expiry, support, reflection and passing are tests of their own,
over the states entered so far and the parameters of the day.  Each of them looks at the last
state first, so that no test can move a consultation out of turn.

Main results:
* `CConsultation.turn_life` — the change in one call of `VoteStep`
* `lifeInv_step` — the changes in one block
* `consultation_lifeCycle` — along a chain
-/

namespace Electrum

open Option List

/-! ## The order of the states -/

/-- The changes of state in a life. -/
inductive LifeStep : Flags → Flags → Prop
  | support : LifeStep .nil .supported
  | lapse : LifeStep .nil .expired
  | reflect : LifeStep .supported .reflection
  | accept : LifeStep .reflection .accepted
  | expire : LifeStep .accepted .expired
  | pass : LifeStep .accepted .passed

/-- The states of a life so far. -/
def LifePath (history : List Flags) : Prop :=
  history <+: [.nil, .supported, .reflection, .accepted, .expired] ∨
    history <+: [.nil, .supported, .reflection, .accepted, .passed] ∨
    history <+: [.nil, .expired]

instance (history : List Flags) : Decidable (LifePath history) :=
  inferInstanceAs (Decidable (_ ∨ _ ∨ _))

variable {history : List Flags} {old new : Flags} {hash : UInt256}

/-- One more change. -/
theorem LifePath.step (h : LifePath history)
    (hLast : history.getLast? = some old) (hStep : LifeStep old new) :
    LifePath (history ++ [new]) := by
  rcases h with h | h | h
  all_goals
    rw [← mem_inits] at h
    simp only [List.inits, map_cons, map_nil, mem_cons, not_mem_nil, or_false] at h
    -- the last state of each prefix decides which change comes next
    rcases h with rfl | rfl | rfl | rfl | rfl | rfl <;> cases hLast <;> cases hStep <;> decide

/-- A finished life goes no further. -/
theorem LifeStep.unfinished (h : LifeStep old new) : old ≠ .expired ∧ old ≠ .passed := by
  cases h <;> decide

/-! ## One call of VoteStep -/

namespace CConsultation

variable {view : CStateView} {c : CConsultation} {env : Env} {pindex : CBlockIndex}

/-- A consultation expires from NIL or ACCEPTED. -/
theorem isExpired_old (h : c.isExpired env view pindex = true) :
    c.getLastState env.mapBlockIndex = .nil ∨ c.getLastState env.mapBlockIndex = .accepted ∨
      c.getLastState env.mapBlockIndex = .expired := by
  dsimp only [isExpired] at h
  split at h
  case h_1 hAccepted _ => exact .inr (.inl hAccepted)
  case h_2 =>
    rw [Bool.or_eq_true, Bool.and_eq_true, beq_iff_eq, beq_iff_eq] at h
    rcases h with hExpired | ⟨-, hNil⟩
    · exact .inr (.inr hExpired)
    · exact .inl hNil

/-- The first half of a turn respects the order. -/
theorem nextState_life {state : Flags}
    (h : c.nextState env view pindex (c.getLastState env.mapBlockIndex) = some state) :
    LifeStep (c.getLastState env.mapBlockIndex) state := by
  unfold nextState at h
  split at h
  case isTrue hExpired =>
    split at h
    case isFalse => cases h
    case isTrue hOld =>
      cases h
      rcases isExpired_old hExpired with hNil | hAccepted | hAlready
      · rw [hNil]
        exact .lapse
      · rw [hAccepted]
        exact .expire
      · rw [hAlready] at hOld
        cases hOld
  case isFalse =>
    split at h
    case isFalse => cases h
    case isTrue =>
      split at h
      case isTrue hNil =>
        cases h
        rw [beq_iff_eq.mp hNil]
        exact .support
      case isFalse =>
        split at h
        case isTrue hSupported =>
          cases h
          rw [Bool.and_eq_true, beq_iff_eq] at hSupported
          rw [hSupported.1]
          exact .reflect
        case isFalse =>
          split at h
          case isFalse => cases h
          case isTrue hReflection =>
            cases h
            rw [Bool.and_eq_true, beq_iff_eq] at hReflection
            rw [hReflection.1]
            exact .accept

/-- **One turn.** A call leaves the last state, or changes it in order at a cycle end. -/
theorem turn_life {s : StepContext} {m : Map Nat Nat}
    (hUnder : c.mapState.Under s.env.mapBlockIndex s.pindexNew)
    (hKnown : s.env.mapBlockIndex[s.pindexNew.phashBlock]? = some s.pindexNew)
    (hPos : 0 < s.pindexNew.nHeight) :
    (c.turn s m view).getLastState s.env.mapBlockIndex = c.getLastState s.env.mapBlockIndex ∨
      (s.isCycleEnd = true ∧ LifeStep (c.getLastState s.env.mapBlockIndex)
        ((c.turn s m view).getLastState s.env.mapBlockIndex)) := by
  dsimp only [turn]
  split
  case h_1 => exact .inl rfl
  case h_2 pblockindex _ =>
    have hRecount : (c.recount s view pblockindex).mapState = c.mapState := by rw [recount_eq]
    generalize hd : c.recount s view pblockindex = d at hRecount
    have hOld : d.getLastState s.env.mapBlockIndex = c.getLastState s.env.mapBlockIndex := by
      rw [getLastState, getLastState, hRecount]
    rw [← hRecount] at hUnder
    split
    case isTrue => exact .inl hOld
    case isFalse hEnd =>
      have hEnd : s.isCycleEnd = true := by simpa using hEnd
      rw [← hOld]
      split
      case isTrue hPass =>
        -- from ACCEPTED, whatever the first half entered
        simp only [Bool.and_eq_true, beq_iff_eq] at hPass
        have hEntered : (d.voteTurn s view (d.getLastState s.env.mapBlockIndex)).mapState.Under
            s.env.mapBlockIndex s.pindexNew := by
          unfold voteTurn
          split
          · exact hUnder
          · exact hUnder.setState _
        have hLast : ((d.voteTurn s view (d.getLastState s.env.mapBlockIndex)).setState s.pindexNew
            .passed).getLastState s.env.mapBlockIndex = .passed :=
          hEntered.getLastState_setState hKnown hPos .passed
        rw [hLast, hPass.1.2]
        exact .inr ⟨hEnd, .pass⟩
      case isFalse =>
        unfold voteTurn
        split
        case h_1 => exact .inl rfl
        case h_2 state hNext =>
          have hLast : (d.setState s.pindexNew state).getLastState s.env.mapBlockIndex = state :=
            hUnder.getLastState_setState hKnown hPos state
          rw [hLast]
          exact .inr ⟨hEnd, nextState_life hNext⟩

end CConsultation

/-- **One call.** -/
theorem StepRun.consultation_life {s : StepContext} {fCFund fDAOConsultations : Bool}
    {c : VoteCache} {fund fund' : Fund} {view view' : CStateView}
    (run : StepRun s fCFund fDAOConsultations c fund view fund' view')
    (hs : s.pindexDelete = none) (hSolid : Solid view)
    (hKnown : s.env.mapBlockIndex[s.pindexNew.phashBlock]? = some s.pindexNew)
    (hPos : 0 < s.pindexNew.nHeight) {d : CConsultation} (hd : view.getConsultation hash = some d)
    (hUnder : d.mapState.Under s.env.mapBlockIndex s.pindexNew) :
    ∃ d', view'.getConsultation hash = some d' ∧
      (d'.getLastState s.env.mapBlockIndex = d.getLastState s.env.mapBlockIndex ∨
        (s.isCycleEnd = true ∧ LifeStep (d.getLastState s.env.mapBlockIndex)
          (d'.getLastState s.env.mapBlockIndex))) := by
  obtain ⟨b, hb, hCore⟩ := Map.core_of_some
    ((run.counted_countsOnly hs hSolid).consultations hash).symm hd
  have hStates : b.mapState = d.mapState := by rw [CConsultation.eq_of_core hCore]
  cases hDAO : fDAOConsultations with
  | true =>
    obtain ⟨v, -, -, hTurns⟩ := run.consultations hs hSolid hDAO
    have hFinal := hTurns hash
    rw [hb] at hFinal
    obtain ⟨d', hd', hCore'⟩ := map_eq_some_iff.mp hFinal
    have hMap : d'.mapState = (b.turn s run.changes v).mapState := by
      rw [CConsultation.eq_of_core hCore']
    refine ⟨d', hd', ?_⟩
    unfold CConsultation.getLastState
    rw [hMap, ← hStates]
    exact b.turn_life (hStates ▸ hUnder) hKnown hPos
  | false =>
    -- the deployment is not active, and only counters change
    subst hDAO
    have hFinal := (run.inactive hs hSolid).2.2 hash
    rw [hd] at hFinal
    obtain ⟨d', hd', hCore'⟩ := map_eq_some_iff.mp hFinal
    refine ⟨d', hd', .inl ?_⟩
    unfold CConsultation.getLastState
    rw [CConsultation.eq_of_core hCore']

/-! ## One block -/

/-- The last state of a consultation, if it is there. -/
def stateOf (env : Env) (hash : UInt256) (view : CStateView) : Option Flags :=
  (view.getConsultation hash).map (·.getLastState env.mapBlockIndex)

/-- The states seen so far, with the one that the view shows now. -/
def observe (env : Env) (hash : UInt256) (view : CStateView) (history : List Flags) :
    List Flags :=
  match stateOf env hash view with
  | none => history
  | some state => if history.getLast? = some state then history else history ++ [state]

/-- The history ends with what the view shows, and its states came in order. -/
structure Observed (env : Env) (hash : UInt256) (view : CStateView) (history : List Flags) :
    Prop where
  last : history.getLast? = stateOf env hash view
  path : LifePath history

section Observe

variable {env : Env} {hash : UInt256} {view view' : CStateView} {history : List Flags}

/-- The state is as it was. -/
theorem Observed.same (h : Observed env hash view history)
    (hSame : stateOf env hash view' = stateOf env hash view) :
    observe env hash view' history = history ∧ Observed env hash view' history := by
  refine ⟨?_, h.last.trans hSame.symm, h.path⟩
  unfold observe
  rw [hSame, ← h.last]
  cases history.getLast? with
  | none => rfl
  | some state => exact if_pos rfl

/-- The consultation is new. -/
theorem Observed.create (h : Observed env hash view history)
    (hOld : stateOf env hash view = none) (hNew : stateOf env hash view' = some .nil) :
    history = [] ∧ observe env hash view' history = [.nil] ∧ Observed env hash view' [.nil] := by
  have hEmpty : history = [] := List.getLast?_eq_none_iff.mp (h.last.trans hOld)
  refine ⟨hEmpty, ?_, hNew.symm, by decide⟩
  rw [hEmpty, observe, hNew]
  rfl

/-- The state changed. -/
theorem Observed.change (h : Observed env hash view history) {old new : Flags}
    (hOld : stateOf env hash view = some old) (hNew : stateOf env hash view' = some new)
    (hStep : LifeStep old new) : Observed env hash view' (observe env hash view' history) := by
  have hLast := h.last.trans hOld
  have hNe : history.getLast? ≠ some new := by
    rw [hLast]
    intro hEq
    cases hEq
    cases hStep
  have hObserve : observe env hash view' history = history ++ [new] := by
    rw [observe, hNew]
    exact if_neg hNe
  rw [hObserve]
  exact ⟨List.getLast?_concat.trans hNew.symm, h.path.step hLast hStep⟩

end Observe

namespace TipRun

variable {node : Node} {block : CBlock} {pindex : CBlockIndex} {st st' : ChainState}
  (run : TipRun node block pindex st st')

/-- The transactions and payouts of a block change no state; a new consultation has none. -/
theorem stateOf_paid (hash : UInt256) :
    stateOf node.toEnv hash run.paid = stateOf node.toEnv hash st.view ∨
      (stateOf node.toEnv hash st.view = none ∧ stateOf node.toEnv hash run.paid = some .nil) := by
  have hPaid : run.paid.getConsultation hash = run.grown.getConsultation hash := by
    rw [run.pays.frame]
    rfl
  unfold stateOf
  rw [hPaid]
  cases hc : st.view.getConsultation hash with
  | some c =>
    obtain ⟨vAnswers, hGrown⟩ := run.grows.consultations hash c hc
    rw [hGrown]
    exact .inl rfl
  | none =>
    cases hGrown : run.grown.getConsultation hash with
    | none => exact .inl rfl
    | some c =>
      rcases run.grows.newConsultations hash c hGrown with ⟨d, hd, -⟩ | hNew
      · rw [hc] at hd
        cases hd
      · refine .inr ⟨rfl, ?_⟩
        rw [map_some, CConsultation.getLastState, hNew.stateless]
        rfl

variable (hExt : Extends node st.chain block pindex) (hSane : Sane node st)
include hExt hSane

/-- `VoteStep` changes a state in order, and only at the end of a cycle. -/
theorem stateOf_vote (hash : UInt256) :
    stateOf node.toEnv hash st'.view = stateOf node.toEnv hash run.paid ∨
      (endsCycle node.toEnv st.view pindex ∧ ∃ old new,
        stateOf node.toEnv hash run.paid = some old ∧
        stateOf node.toEnv hash st'.view = some new ∧ LifeStep old new) := by
  have hHeight := hExt.height
  cases hc : run.paid.getConsultation hash with
  | none =>
    have hNone := (run.run.none_of_none rfl (run.paid_solid hSane) hash).2.2.2 hc
    unfold stateOf
    rw [hc, hNone]
    exact .inl rfl
  | some c =>
    have hBelow : c.mapState.Below node.mapBlockIndex (tipHeight st.chain) := by
      have hGrown : run.grown.getConsultation hash = some c := by
        rw [← hc, run.pays.frame]
        rfl
      exact (run.grown_below hSane).consultations hash c hGrown
    obtain ⟨c', hc', hLife⟩ := run.run.consultation_life rfl (run.paid_solid hSane) hExt.known
      (by show 0 < pindex.nHeight; omega) hc (hBelow.under (by show _ < pindex.nHeight; omega))
    unfold stateOf
    rw [hc, hc']
    rcases hLife with hSame | ⟨hEnd, hStep⟩
    · exact .inl (congrArg some hSame)
    · exact .inr ⟨run.endsCycle_of_isCycleEnd hEnd, _, _, rfl, rfl, hStep⟩

include run in
/-- EXPIRED and PASSED are not left. -/
theorem stateOf_finished {hash : UInt256} {state : Flags}
    (hState : state = .expired ∨ state = .passed)
    (h : stateOf node.toEnv hash st.view = some state) :
    stateOf node.toEnv hash st'.view = some state := by
  have hPaid : stateOf node.toEnv hash run.paid = some state := by
    rcases run.stateOf_paid hash with hSame | ⟨hNone, -⟩
    · exact hSame.trans h
    · rw [hNone] at h
      cases h
  rcases run.stateOf_vote hExt hSane hash with hSame | ⟨-, old, new, hOld, -, hStep⟩
  · exact hSame.trans hPaid
  · rw [hPaid] at hOld
    cases hOld
    rcases hState with rfl | rfl
    · exact absurd rfl hStep.unfinished.1
    · exact absurd rfl hStep.unfinished.2

end TipRun

/-! ## Runs -/

/-- The history after a block: what `ConnectBlock` leaves, and then `VoteStep`. -/
def historyAfter (node : Node) (hash : UInt256) (block : CBlock) (pindex : CBlockIndex)
    (st st' : ChainState) (history : List Flags) : List Flags :=
  let history := match connectBlock node block pindex st.chain st.fund st.recorded st.view with
    | .ok r => observe node.toEnv hash r.view history
    | .error _ => history
  observe node.toEnv hash st'.view history

/-- One more block, with the states of a consultation. -/
def HistoryStep (node : Node) (hash : UInt256) (s s' : ChainState × List Flags) : Prop :=
  ∃ block pindex, Extends node s.1.chain block pindex ∧
    connectTip node block pindex s.1 = some s'.1 ∧
    s'.2 = historyAfter node hash block pindex s.1 s'.1 s.2

def HistoryRun (node : Node) (hash : UInt256) :
    ChainState × List Flags → ChainState × List Flags → Prop :=
  Relation.ReflTransGen (HistoryStep node hash)

structure LifeInv (node : Node) (hash : UInt256) (s : ChainState × List Flags) : Prop where
  sane : Sane node s.1
  observed : Observed node.toEnv hash s.1.view s.2

theorem lifeInv_genesis (node : Node) (hash : UInt256) (genesis : CBlockIndex) :
    LifeInv node hash (.genesis genesis, []) := by
  refine ⟨sane_genesis node genesis, ?_, .inl nil_prefix⟩
  simp [stateOf, ChainState.genesis, CStateView.empty, CStateView.getConsultation]

/-- **Step.** A block keeps the order; it makes a new history, or changes one only if a cycle
ends with it. -/
theorem lifeInv_step {node : Node} {st st' : ChainState}
    {block : CBlock} {pindex : CBlockIndex} (hInv : LifeInv node hash (st, history))
    (hExt : Extends node st.chain block pindex)
    (hConnect : connectTip node block pindex st = some st') :
    LifeInv node hash (st', historyAfter node hash block pindex st st' history) ∧
      (historyAfter node hash block pindex st st' history = history ∨
        (history = [] ∧ historyAfter node hash block pindex st st' history = [.nil]) ∨
        endsCycle node.toEnv st.view pindex) := by
  obtain ⟨hSane, hObserved⟩ := hInv
  unfold connectTip at hConnect
  unfold historyAfter
  split at hConnect
  case h_1 recorded hError =>
    cases hConnect
    rw [hError]
    obtain ⟨hHistory, hObserved'⟩ := hObserved.same rfl
    rw [hHistory]
    exact ⟨⟨⟨hSane.solid, hSane.below⟩, hObserved'⟩, .inl rfl⟩
  case h_2 r hOk =>
    rw [map_eq_some_iff] at hConnect
    obtain ⟨v, hVote, rfl⟩ := hConnect
    obtain ⟨run, hPaid⟩ := connected_run hExt.hashes hOk hVote
    rw [hOk]
    have hNext := run.sane hExt hSane
    -- the history when `ConnectBlock` is done
    obtain ⟨hMid, hNew⟩ : Observed node.toEnv hash r.view (observe node.toEnv hash r.view history) ∧
        (observe node.toEnv hash r.view history = history ∨
          (history = [] ∧ observe node.toEnv hash r.view history = [.nil])) := by
      rw [← hPaid]
      rcases run.stateOf_paid hash with hSame | ⟨hOld, hNil⟩
      · obtain ⟨hHistory, hPaidObserved⟩ := hObserved.same hSame
        rw [hHistory]
        exact ⟨hPaidObserved, .inl rfl⟩
      · obtain ⟨hEmpty, hHistory, hPaidObserved⟩ := hObserved.create hOld hNil
        rw [hHistory]
        exact ⟨hPaidObserved, .inr ⟨hEmpty, rfl⟩⟩
    rcases run.stateOf_vote hExt hSane hash with hSame | ⟨hEnd, old, new, hOld, hState, hStep⟩
    · rw [hPaid] at hSame
      obtain ⟨hHistory, hObserved'⟩ := hMid.same hSame
      rw [hHistory]
      exact ⟨⟨hNext, hObserved'⟩, hNew.imp_right .inl⟩
    · rw [hPaid] at hOld
      exact ⟨⟨hNext, hMid.change hOld hState hStep⟩, .inr (.inr hEnd)⟩

/-- **Life cycle.** Along every chain, from the genesis block or from any state with the
invariant, the states of a consultation come in order: NIL, SUPPORTED, REFLECTION, ACCEPTED, and
then EXPIRED or PASSED, or EXPIRED right after NIL.  A block changes the state of a consultation
only if a cycle ends with it, and leaves EXPIRED and PASSED. -/
theorem consultation_lifeCycle {node : Node} {hash : UInt256} {s₀ s : ChainState × List Flags}
    (hStart : LifeInv node hash s₀) (hRun : HistoryRun node hash s₀ s) :
    LifePath s.2 ∧ s.2.getLast? = stateOf node.toEnv hash s.1.view ∧
      ∀ block pindex st', Extends node s.1.chain block pindex →
        connectTip node block pindex s.1 = some st' →
        (historyAfter node hash block pindex s.1 st' s.2 = s.2 ∨
          (s.2 = [] ∧ historyAfter node hash block pindex s.1 st' s.2 = [.nil]) ∨
          endsCycle node.toEnv s.1.view pindex) ∧
        ∀ state, state = .expired ∨ state = .passed →
          stateOf node.toEnv hash s.1.view = some state →
          stateOf node.toEnv hash st'.view = some state := by
  have hStep : ∀ s s', LifeInv node hash s → HistoryStep node hash s s' →
      LifeInv node hash s' := by
    rintro ⟨st, history⟩ ⟨st', history'⟩ hInv ⟨block, pindex, hExt, hConnect, hHistory⟩
    dsimp only at hHistory
    rw [hHistory]
    exact (lifeInv_step hInv hExt hConnect).1
  have hInv : LifeInv node hash s := run_invariant hRun hStart hStep
  refine ⟨hInv.observed.path, hInv.observed.last, fun block pindex st' hExt hConnect => ?_⟩
  refine ⟨(lifeInv_step hInv hExt hConnect).2, fun state hState h => ?_⟩
  rcases connectTip_run hExt.hashes hConnect with ⟨recorded, rfl⟩ | ⟨⟨run⟩⟩
  · exact h
  · exact run.stateOf_finished hExt hInv.sane hState h

/-! ## A consultation that passes -/

/-- The answer passes, and with it the consultation. -/
theorem consultation_lifeCycle_quorumBlock :
    ∃ st, connectTip smallNode quorumBlock (smallBlock 9) quorumState = some st ∧
      stateOf smallNode.toEnv 100 st.view = some .passed ∧
      LifePath (historyAfter smallNode 100 quorumBlock (smallBlock 9) quorumState st
        [.nil, .supported, .reflection, .accepted]) := by
  obtain ⟨st, hst, hState⟩ : ∃ st, connectTip smallNode quorumBlock (smallBlock 9) quorumState =
      some st ∧ stateOf smallNode.toEnv 100 st.view = some .passed := by
    decide +kernel
  have hStart : LifeInv smallNode 100
      (quorumState, [.nil, .supported, .reflection, .accepted]) :=
    ⟨⟨by decide +kernel, by decide +kernel⟩, ⟨by decide +kernel, by decide⟩⟩
  have hExt : Extends smallNode quorumState.chain quorumBlock (smallBlock 9) :=
    ⟨rfl, rfl, rfl, by decide +kernel, rfl, by decide⟩
  have hStep : HistoryStep smallNode 100 (quorumState, [.nil, .supported, .reflection, .accepted])
      (st, historyAfter smallNode 100 quorumBlock (smallBlock 9) quorumState st
        [.nil, .supported, .reflection, .accepted]) :=
    ⟨quorumBlock, smallBlock 9, hExt, hst, rfl⟩
  exact ⟨st, hst, hState, (consultation_lifeCycle hStart (.single hStep)).1⟩

end Electrum
