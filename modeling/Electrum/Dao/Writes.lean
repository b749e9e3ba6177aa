import Electrum.Dao.States
import Electrum.Dao.VoteStep
import Electrum.Lib.Table

/-!
# What VoteStep writes

Every phase of `VoteStep` walks over objects and writes some of them back.  A *write* puts an
edited object in the place of one that is there; a phase is a sequence of writes, and the edits
that it makes are said here once.  An object without its counters is its *core*; without its
state and voting cycle as well it is *bare*.

Main results:
* `tallyAll_writes`, `excludeAll_writes`, `resetAll_writes` — the counting phases
* `stepFund_writes`, `stepConsultation_writes` — the state changes
* `Writes.lift` — what every write of a phase keeps, the phase keeps
-/

namespace Electrum

open Bool

/-! ## Cores -/

def CProposal.core (p : CProposal) : CProposal :=
  { p with nVotesYes := 0, nVotesNo := 0, nVotesAbs := 0, nExclude := 0 }

def CPaymentRequest.core (r : CPaymentRequest) : CPaymentRequest :=
  { r with nVotesYes := 0, nVotesNo := 0, nVotesAbs := 0, nExclude := 0 }

def CConsultation.core (c : CConsultation) : CConsultation :=
  { c with nSupport := 0, mapVotes := ∅, nExclude := 0 }

def CConsultationAnswer.core (a : CConsultationAnswer) : CConsultationAnswer :=
  { a with nVotes := 0, nSupport := 0, nExclude := 0 }

variable {p : CProposal} {r : CPaymentRequest} {view : CStateView} {env : Env} {s : StepContext}
  {hash : UInt256} {mapSeen mapSeenSupport : List UInt256}

/-- Objects with the same core differ in counters only. -/
theorem CProposal.eq_of_core {q : CProposal} (h : p.core = q.core) :
    p = { q with nVotesYes := p.nVotesYes, nVotesNo := p.nVotesNo, nVotesAbs := p.nVotesAbs,
                 nExclude := p.nExclude } := by
  cases p
  simpa [core] using h

theorem CPaymentRequest.eq_of_core {q : CPaymentRequest} (h : r.core = q.core) :
    r = { q with nVotesYes := r.nVotesYes, nVotesNo := r.nVotesNo, nVotesAbs := r.nVotesAbs,
                 nExclude := r.nExclude } := by
  cases r
  simpa [core] using h

variable {c : CConsultation} {a : CConsultationAnswer} {e : Edit} {fCFund fDAOConsultations : Bool}
  {st : CStateView × Fund}

theorem CConsultation.eq_of_core {d : CConsultation} (h : c.core = d.core) :
    c = { d with nSupport := c.nSupport, mapVotes := c.mapVotes, nExclude := c.nExclude } := by
  cases c
  simpa [core] using h

theorem CConsultationAnswer.eq_of_core {b : CConsultationAnswer} (h : a.core = b.core) :
    a = { b with nVotes := a.nVotes, nSupport := a.nSupport, nExclude := a.nExclude } := by
  cases a
  simpa [core] using h

/-- An object that is not null for any counters is not null. -/
theorem CProposal.notNull_of_core (h : p.core.isNull = false) : p.isNull = false := by
  by_contra hNull
  simp only [not_eq_false, isNull, and_eq_true] at hNull
  simp [isNull, core, hNull] at h

theorem CPaymentRequest.notNull_of_core (h : r.core.isNull = false) : r.isNull = false := by
  by_contra hNull
  simp only [not_eq_false, isNull, and_eq_true] at hNull
  simp [isNull, core, hNull] at h

theorem CConsultation.notNull_of_hash (h : c.hash ≠ 0) : c.isNull = false := by
  simp [isNull, h]

theorem CConsultationAnswer.notNull_of_core (h : a.core.isNull = false) : a.isNull = false := by
  by_contra hNull
  simp only [not_eq_false, isNull, and_eq_true] at hNull
  simp [isNull, core, hNull] at h

/-! ## Bare objects -/

def CProposal.bare (p : CProposal) : CProposal := { p.core with mapState := ∅, nVotingCycle := 0 }

def CPaymentRequest.bare (r : CPaymentRequest) : CPaymentRequest :=
  { r.core with mapState := ∅, nVotingCycle := 0 }

def CConsultation.bare (c : CConsultation) : CConsultation :=
  { c.core with mapState := ∅, nVotingCycle := 0 }

def CConsultationAnswer.bare (a : CConsultationAnswer) : CConsultationAnswer :=
  { a.core with mapState := ∅ }

/-- Undoing a state change touches the state and the voting cycle. -/
theorem CProposal.undoState_bare (s : StepContext) (d b : CBlockIndex) (bound : Nat)
    (p : CProposal) : (p.undoState s d b bound).bare = p.bare := by
  unfold undoState
  dsimp only
  split <;> rfl

theorem CPaymentRequest.undoState_bare (s : StepContext) (d b : CBlockIndex) (bound : Nat)
    (r : CPaymentRequest) : (r.undoState s d b bound).bare = r.bare := by
  unfold undoState
  dsimp only
  split <;> rfl

theorem CConsultation.undoState_bare (s : StepContext) (d b : CBlockIndex) (bound : Nat)
    (c : CConsultation) : (c.undoState s d b bound).bare = c.bare := by
  unfold undoState
  dsimp only
  split <;> rfl

/-! ## Writing an object back -/

namespace CStateView

variable (view : CStateView) (hash : UInt256)

theorem setPaymentRequest_twice (r r' : CPaymentRequest) :
    (view.setPaymentRequest hash r).setPaymentRequest hash r' = view.setPaymentRequest hash r' := by
  simp only [setPaymentRequest, Map.setUnless_twice]

theorem setProposal_twice (p p' : CProposal) :
    (view.setProposal hash p).setProposal hash p' = view.setProposal hash p' := by
  simp only [setProposal, Map.setUnless_twice]

theorem setConsultationAnswer_twice (a a' : CConsultationAnswer) :
    (view.setConsultationAnswer hash a).setConsultationAnswer hash a' =
      view.setConsultationAnswer hash a' := by
  simp only [setConsultationAnswer, Map.setUnless_twice]

theorem setConsultation_twice (c c' : CConsultation) :
    (view.setConsultation hash c).setConsultation hash c' = view.setConsultation hash c' := by
  simp only [setConsultation, Map.setUnless_twice]

variable {view} {hash}

theorem setPaymentRequest_self {r : CPaymentRequest} (h : view.getPaymentRequest hash = some r)
    (hNull : r.isNull = false) : view.setPaymentRequest hash r = view := by
  unfold setPaymentRequest
  rw [Map.setUnless_self h hNull]

theorem setProposal_self {p : CProposal} (h : view.getProposal hash = some p)
    (hNull : p.isNull = false) : view.setProposal hash p = view := by
  unfold setProposal
  rw [Map.setUnless_self h hNull]

variable {c : CConsultation} {a : CConsultationAnswer}

theorem setConsultation_self (h : view.getConsultation hash = some c)
    (hNull : c.isNull = false) : view.setConsultation hash c = view := by
  unfold setConsultation
  rw [Map.setUnless_self h hNull]

theorem setConsultationAnswer_self
    (h : view.getConsultationAnswer hash = some a) (hNull : a.isNull = false) :
    view.setConsultationAnswer hash a = view := by
  unfold setConsultationAnswer
  rw [Map.setUnless_self h hNull]

theorem getPaymentRequest_set {r : CPaymentRequest} (hNull : r.isNull = false) (k : UInt256) :
    (view.setPaymentRequest hash r).getPaymentRequest k =
      if hash = k then some r else view.getPaymentRequest k := by
  unfold setPaymentRequest getPaymentRequest
  rw [Map.getElem?_setUnless, hNull]
  rfl

theorem getProposal_set {p : CProposal} (hNull : p.isNull = false) (k : UInt256) :
    (view.setProposal hash p).getProposal k = if hash = k then some p else view.getProposal k := by
  unfold setProposal getProposal
  rw [Map.getElem?_setUnless, hNull]
  rfl

theorem getConsultation_set (hNull : c.isNull = false) (k : UInt256) :
    (view.setConsultation hash c).getConsultation k =
      if hash = k then some c else view.getConsultation k := by
  unfold setConsultation getConsultation
  rw [Map.getElem?_setUnless, hNull]
  rfl

theorem getConsultationAnswer_set (hNull : a.isNull = false) (k : UInt256) :
    (view.setConsultationAnswer hash a).getConsultationAnswer k =
      if hash = k then some a else view.getConsultationAnswer k := by
  unfold setConsultationAnswer getConsultationAnswer
  rw [Map.getElem?_setUnless, hNull]
  rfl

end CStateView

/-- The maps of the view as tables. -/
def proposalTable : Table CStateView UInt256 CProposal :=
  ⟨(·.proposals), fun view m => { view with proposals := m }, CProposal.isNull,
    fun _ _ => rfl, fun _ => rfl, fun _ _ _ => rfl⟩

def requestTable : Table CStateView UInt256 CPaymentRequest :=
  ⟨(·.paymentRequests), fun view m => { view with paymentRequests := m }, CPaymentRequest.isNull,
    fun _ _ => rfl, fun _ => rfl, fun _ _ _ => rfl⟩

def consultationTable : Table CStateView UInt256 CConsultation :=
  ⟨(·.consultations), fun view m => { view with consultations := m }, CConsultation.isNull,
    fun _ _ => rfl, fun _ => rfl, fun _ _ _ => rfl⟩

/-! ## Writes -/

/-- An object and what is written in its place. -/
inductive Edit
  | proposal (p p' : CProposal)
  | paymentRequest (r r' : CPaymentRequest)
  | consultation (c c' : CConsultation)
  | answer (a a' : CConsultationAnswer)

/-- One write, of an edit of an object that is there. -/
inductive Write (E : Edit → Prop) (view : CStateView) : CStateView → Prop
  | proposal {hash : UInt256} {p p' : CProposal} (h : view.getProposal hash = some p)
      (hEdit : E (.proposal p p')) : Write E view (view.setProposal hash p')
  | paymentRequest {hash : UInt256} {r r' : CPaymentRequest}
      (h : view.getPaymentRequest hash = some r) (hEdit : E (.paymentRequest r r')) :
      Write E view (view.setPaymentRequest hash r')
  | consultation {hash : UInt256} {c c' : CConsultation}
      (h : view.getConsultation hash = some c) (hEdit : E (.consultation c c')) :
      Write E view (view.setConsultation hash c')
  | answer {hash : UInt256} {a a' : CConsultationAnswer}
      (h : view.getConsultationAnswer hash = some a) (hEdit : E (.answer a a')) :
      Write E view (view.setConsultationAnswer hash a')

theorem Write.mono {E E' : Edit → Prop} (hEdit : ∀ e, E e → E' e) {view' : CStateView}
    (h : Write E view view') : Write E' view view' := by
  cases h with
  | proposal h he => exact .proposal h (hEdit _ he)
  | paymentRequest h he => exact .paymentRequest h (hEdit _ he)
  | consultation h he => exact .consultation h (hEdit _ he)
  | answer h he => exact .answer h (hEdit _ he)

/-- Any number of writes. -/
def Writes (E : Edit → Prop) : CStateView → CStateView → Prop := Relation.ReflTransGen (Write E)

namespace Writes

variable {E E' : Edit → Prop} {view' : CStateView}

theorem refl (view : CStateView) : Writes E view view := Relation.ReflTransGen.refl

theorem single (h : Write E view view') : Writes E view view' := Relation.ReflTransGen.single h

theorem trans {u v w : CStateView} (h : Writes E u v) (h' : Writes E v w) : Writes E u w :=
  Relation.ReflTransGen.trans h h'

theorem mono (hEdit : ∀ e, E e → E' e) (h : Writes E view view') : Writes E' view view' :=
  Relation.ReflTransGen.mono (fun _ _ hWrite => hWrite.mono hEdit) view view' h

/-- A relation that every write satisfies, from views with an invariant that writes keep. -/
theorem lift {R : CStateView → CStateView → Prop} {Inv : CStateView → Prop}
    (hRefl : ∀ v, R v v) (hTrans : ∀ {u v w}, R u v → R v w → R u w)
    (hInv : ∀ {v w}, Inv v → Write E v w → Inv w) (hWrite : ∀ {v w}, Inv v → Write E v w → R v w)
    (h : Writes E view view') (hs : Inv view) : R view view' := by
  suffices hAll : Inv view' ∧ R view view' from hAll.2
  induction h with
  | refl => exact ⟨hs, hRefl view⟩
  | tail _ hStep ih => exact ⟨hInv ih.1 hStep, hTrans ih.2 (hWrite ih.1 hStep)⟩

variable {α β : Type}

/-- A loop of turns that write. -/
theorem foldl (proj : β → CStateView) {f : β → α → β}
    (hTurn : ∀ b a, Writes E (proj b) (proj (f b a))) (l : List α) (b : β) :
    Writes E (proj b) (proj (l.foldl f b)) := by
  induction l generalizing b with
  | nil => exact .refl _
  | cons a l ih => exact (hTurn b a).trans (ih (f b a))

/-- The same over a map. -/
theorem foldlMap {κ : Type} [Ord κ] [Std.TransOrd κ] [Std.LawfulEqOrd κ]
    (proj : β → CStateView) {f : β → κ → α → β}
    (hTurn : ∀ b k a, Writes E (proj b) (proj (f b k a))) (map : Map κ α) (b : β) :
    Writes E (proj b) (proj (map.foldl f b)) := by
  rw [Std.ExtTreeMap.foldl_eq_foldl_toList]
  exact foldl proj (fun b it => hTurn b it.1 it.2) map.toList b

end Writes

/-! ## Storing the counts -/

/-- The object stays the same when bare. -/
def Edit.keepsBare : Edit → Prop
  | .proposal p p' => p'.bare = p.bare
  | .paymentRequest r r' => r'.bare = r.bare
  | .consultation c c' => c'.bare = c.bare
  | .answer a a' => a'.bare = a.bare

/-- Only counters change, and those of proposals and payment requests only without a state. -/
def Edit.counts (env : Env) : Edit → Prop
  | .proposal p p' => p.getLastState env.mapBlockIndex = .nil ∧ p'.core = p.core
  | .paymentRequest r r' => r.getLastState env.mapBlockIndex = .nil ∧ r'.core = r.core
  | .consultation c c' => c'.core = c.core
  | .answer a a' => a'.core = a.core

/-- What has the same core is the same when bare. -/
theorem Edit.counts.keepsBare (h : e.counts env) : e.keepsBare := by
  cases e with
  | proposal p p' =>
    show p'.core.bare = p.core.bare
    rw [h.2]
  | paymentRequest r r' =>
    show r'.core.bare = r.core.bare
    rw [h.2]
  | consultation c c' =>
    show c'.core.bare = c.core.bare
    rw [show c'.core = c.core from h]
  | answer a a' =>
    show a'.core.bare = a.core.bare
    rw [show a'.core = a.core from h]

/-- Storing a count also takes back a state when a block is disconnected. -/
def Edit.tallies (s : StepContext) (e : Edit) : Prop :=
  e.keepsBare ∧ (s.pindexDelete = none → e.counts s.env)

theorem CPaymentRequest.getLastState_of_canVote (h : r.canVote env view = true) :
    r.getLastState env.mapBlockIndex = .nil := by
  unfold canVote at h
  split at h
  · cases h
  · simp only [and_eq_true, beq_iff_eq] at h
    exact h.1.2

theorem CProposal.getLastState_of_canVote (h : p.canVote env = true) :
    p.getLastState env.mapBlockIndex = .nil :=
  beq_iff_eq.mp h

section Tally

variable {st : Tally} {e : Edit} {count : VoteCount}

/-- While a block is disconnected, whatever leaves the object bare is such an edit. -/
theorem Edit.tallies.of_bare {d : CBlockIndex} (hs : s.pindexDelete = some d)
    (h : e.keepsBare) : e.tallies s :=
  ⟨h, fun hNone => by rw [hs] at hNone; cases hNone⟩

theorem Edit.tallies.of_counts (h : e.counts s.env) : e.tallies s :=
  ⟨h.keepsBare, fun _ => h⟩

theorem tallyProposal_writes : Writes (Edit.tallies s) st.1 (tallyProposal s st hash count).1 := by
  unfold tallyProposal
  split
  case h_1 => exact .refl _
  case h_2 p hp =>
    split
    · exact .refl _
    · cases hs : s.pindexDelete with
      | none =>
        dsimp only
        split
        · exact .refl _
        · rename_i hVote
          rw [not_eq_true, not_eq_false'] at hVote
          exact .single (.proposal hp
            (.of_counts ⟨CProposal.getLastState_of_canVote hVote, rfl⟩))
      | some d =>
        dsimp only
        split
        · exact .single (.proposal hp (.of_bare hs (CProposal.undoState_bare ..)))
        · rw [CStateView.setProposal_twice]
          exact .single (.proposal hp (.of_bare hs (CProposal.undoState_bare ..)))

theorem tallyPaymentRequest_writes :
    Writes (Edit.tallies s) st.1 (tallyPaymentRequest s st hash count).1 := by
  unfold tallyPaymentRequest
  split
  case h_1 => exact .refl _
  case h_2 r hr =>
    split
    · exact .refl _
    · cases hs : s.pindexDelete with
      | none =>
        dsimp only
        split
        · exact .refl _
        · rename_i hVote
          rw [not_eq_true, not_eq_false'] at hVote
          exact .single (.paymentRequest hr
            (.of_counts ⟨CPaymentRequest.getLastState_of_canVote hVote, rfl⟩))
      | some d =>
        dsimp only
        split
        · exact .single (.paymentRequest hr
            (.of_bare hs (CPaymentRequest.undoState_bare ..)))
        · rw [CStateView.setPaymentRequest_twice]
          exact .single (.paymentRequest hr
            (.of_bare hs (CPaymentRequest.undoState_bare ..)))

/-- Support and votes of consultations. -/
theorem tallyDAO_writes {count : Int} :
    (∀ hash, Writes (Edit.tallies s) st.1 (tallySupport s st hash count).1) ∧
      ∀ seen key, Writes (Edit.tallies s) st.1 (tallyConsultation s (st, seen) key count).1.1 := by
  refine ⟨fun hash => ?_, fun seen key => ?_⟩
  case' refine_1 => unfold tallySupport
  case' refine_2 => unfold tallyConsultation
  -- the two differ only in what they count
  all_goals
    split
    case h_1 c hc =>
      split
      · exact .refl _
      · cases hs : s.pindexDelete with
        | none =>
          dsimp only
          split
          · exact .refl _
          · exact .single (.consultation hc (.of_counts rfl))
        | some d =>
          dsimp only
          split
          · exact .single (.consultation hc (.of_bare hs (CConsultation.undoState_bare ..)))
          · rw [CStateView.setConsultation_twice]
            exact .single (.consultation hc (.of_bare hs (CConsultation.undoState_bare ..)))
    case h_2 =>
      split
      case h_1 => exact .refl _
      case h_2 a ha =>
        split
        · exact .refl _
        · cases hs : s.pindexDelete with
          | none =>
            dsimp only
            split
            · exact .refl _
            · exact .single (.answer ha (.of_counts rfl))
          | some d =>
            dsimp only
            split
            · exact .single (.answer ha (.of_bare hs rfl))
            · rw [CStateView.setConsultationAnswer_twice]
              exact .single (.answer ha (.of_bare hs rfl))

/-- **Counting.** -/
theorem tallyAll_writes {fCFund fDAOConsultations : Bool} {c : VoteCache} :
    Writes (Edit.tallies s) view (tallyAll s fCFund fDAOConsultations c view).1 := by
  have hProposals : Writes (Edit.tallies s) view (if fCFund then
      c.mapCacheProposalsToUpdate.foldl (tallyProposal s) (view, []) else (view, [])).1 := by
    split
    · exact .foldlMap Prod.fst (fun _ _ _ => tallyProposal_writes) _ (view, [])
    · exact .refl _
  dsimp only [tallyAll]
  generalize (if fCFund = true then
    c.mapCacheProposalsToUpdate.foldl (tallyProposal s) (view, []) else (view, [])) = st
    at hProposals ⊢
  have hRequests : Writes (Edit.tallies s) view (if fCFund then
      c.mapCachePaymentRequestToUpdate.foldl (tallyPaymentRequest s) st else st).1 := by
    split
    · exact hProposals.trans (.foldlMap Prod.fst (fun _ _ _ => tallyPaymentRequest_writes) _ st)
    · exact hProposals
  generalize (if fCFund = true then
    c.mapCachePaymentRequestToUpdate.foldl (tallyPaymentRequest s) st else st) = st'
    at hRequests ⊢
  split
  · have hSupport : Writes (Edit.tallies s) view
        (c.mapCacheSupportToUpdate.foldl (tallySupport s) (st'.1, [])).1 :=
      hRequests.trans (.foldlMap Prod.fst (fun _ _ _ => tallyDAO_writes.1 _) _ (st'.1, []))
    exact hSupport.trans (.foldlMap (fun b : Tally × List UInt256 => b.1.1)
      (fun _ _ _ => tallyDAO_writes.2 _ _) _ ((_, st'.2), []))
  · exact hRequests

end Tally

/-! ## Storing the number of excluded blocks -/

/-- The number of excluded blocks is stored, in a proposal or payment request without a state. -/
def Edit.excludes (s : StepContext) : Edit → Prop
  | .proposal p p' => p.getLastState s.env.mapBlockIndex = .nil ∧
      p' = { p with nExclude := s.nCacheExclude }
  | .paymentRequest r r' => r.getLastState s.env.mapBlockIndex = .nil ∧
      r' = { r with nExclude := s.nCacheExclude }
  | .consultation c c' => c' = { c with nExclude := s.nCacheExclude }
  | .answer a a' => a' = { a with nExclude := s.nCacheExclude }

theorem Edit.excludes.counts (h : e.excludes s) : e.counts s.env := by
  cases e with
  | proposal p p' =>
    obtain ⟨hNil, rfl⟩ := h
    exact ⟨hNil, rfl⟩
  | paymentRequest r r' =>
    obtain ⟨hNil, rfl⟩ := h
    exact ⟨hNil, rfl⟩
  | consultation c c' =>
    cases h
    rfl
  | answer a a' =>
    cases h
    rfl

theorem excludePaymentRequest_writes :
    Writes (Edit.excludes s) view (excludePaymentRequest s view hash) := by
  unfold excludePaymentRequest
  split
  · exact .refl _
  · rename_i r hr
    split
    · rename_i hVote
      exact .single (.paymentRequest hr ⟨CPaymentRequest.getLastState_of_canVote hVote, rfl⟩)
    · exact .refl _

theorem excludeProposal_writes : Writes (Edit.excludes s) view (excludeProposal s view hash) := by
  unfold excludeProposal
  split
  · exact .refl _
  · rename_i p hp
    split
    · rename_i hVote
      exact .single (.proposal hp ⟨CProposal.getLastState_of_canVote hVote, rfl⟩)
    · exact .refl _

theorem excludeConsultation_writes :
    Writes (Edit.excludes s) view (excludeConsultation s view hash) := by
  unfold excludeConsultation
  split
  · exact .refl _
  · rename_i c hc
    split
    · exact .single (.consultation hc rfl)
    · exact .refl _

theorem excludeAnswer_writes : Writes (Edit.excludes s) view (excludeAnswer s view hash) := by
  unfold excludeAnswer
  split
  · exact .refl _
  · rename_i a ha
    split
    · exact .single (.answer ha rfl)
    · exact .refl _

/-- **Excluded blocks.** -/
theorem excludeAll_writes :
    Writes (Edit.excludes s) view (excludeAll s fCFund fDAOConsultations view) := by
  have hFund : Writes (Edit.excludes s) view (if fCFund then
      view.proposals.keys.foldl (excludeProposal s)
        (view.paymentRequests.keys.foldl (excludePaymentRequest s) view) else view) := by
    split
    · exact Writes.trans (.foldl id (fun _ _ => excludePaymentRequest_writes) _ view)
        (.foldl id (fun _ _ => excludeProposal_writes) _ _)
    · exact .refl _
  dsimp only [excludeAll]
  generalize (if fCFund = true then view.proposals.keys.foldl (excludeProposal s)
    (view.paymentRequests.keys.foldl (excludePaymentRequest s) view) else view) = v at hFund ⊢
  split
  · exact hFund.trans (Writes.trans (.foldl id (fun _ _ => excludeConsultation_writes) _ v)
      (.foldl id (fun _ _ => excludeAnswer_writes) _ _))
  · exact hFund

/-! ## Restarting the counters -/

theorem resetPaymentRequest_writes :
    Writes (Edit.counts s.env) view (resetPaymentRequest s mapSeen view hash) := by
  unfold resetPaymentRequest
  split
  · exact .refl _
  · rename_i r hr
    split
    · rename_i hVote
      rw [and_eq_true] at hVote
      exact .single (.paymentRequest hr ⟨CPaymentRequest.getLastState_of_canVote hVote.2, rfl⟩)
    · exact .refl _

theorem resetProposal_writes :
    Writes (Edit.counts s.env) view (resetProposal s mapSeen view hash) := by
  unfold resetProposal
  split
  · exact .refl _
  · rename_i p hp
    split
    · rename_i hVote
      rw [and_eq_true] at hVote
      exact .single (.proposal hp ⟨CProposal.getLastState_of_canVote hVote.2, rfl⟩)
    · exact .refl _

theorem resetConsultation_writes {st : CStateView × List UInt256} :
    Writes (Edit.counts s.env) st.1 (resetConsultation s mapSeen mapSeenSupport st hash).1 := by
  dsimp only [resetConsultation]
  split
  · exact .refl _
  · rename_i c hc
    repeat' split
    all_goals exact .single (.consultation hc rfl)

theorem resetAnswer_writes {vClearAnswers : List UInt256} {parent : UInt256} :
    Writes (Edit.counts s.env) view
      (resetAnswer s mapSeen mapSeenSupport vClearAnswers view hash parent) := by
  dsimp only [resetAnswer]
  split
  · exact .refl _
  · split
    · exact .refl _
    · rename_i a ha
      refine .single (.answer ha ?_)
      repeat' split
      all_goals rfl

/-- **Restarting.** -/
theorem resetAll_writes : Writes (Edit.counts s.env) view
    (resetAll s fCFund fDAOConsultations mapSeen mapSeenSupport view) := by
  have hFund : Writes (Edit.counts s.env) view (if fCFund then
      view.proposals.keys.foldl (resetProposal s mapSeen)
        (view.paymentRequests.keys.foldl (resetPaymentRequest s mapSeen) view) else view) := by
    split
    · exact Writes.trans (.foldl id (fun _ _ => resetPaymentRequest_writes) _ view)
        (.foldl id (fun _ _ => resetProposal_writes) _ _)
    · exact .refl _
  dsimp only [resetAll]
  generalize (if fCFund = true then view.proposals.keys.foldl (resetProposal s mapSeen)
    (view.paymentRequests.keys.foldl (resetPaymentRequest s mapSeen) view) else view) = v
    at hFund ⊢
  split
  · exact hFund.trans (Writes.trans
      (.foldl Prod.fst (fun _ _ => resetConsultation_writes) _ (v, []))
      (.foldlMap id (fun _ _ _ => resetAnswer_writes) v.answers _))
  · exact hFund

/-! ## The state changes -/

theorem stepPaymentRequest_writes :
    Writes Edit.keepsBare st.1 (stepPaymentRequest s st hash).1 := by
  unfold stepPaymentRequest
  split
  case h_1 => exact .refl _
  case h_2 r hr =>
    split
    case h_2 => exact .refl _
    case h_1 pblockindex proposal _ _ =>
      cases s.pindexDelete with
      | some d => exact .single (.paymentRequest hr (CPaymentRequest.undoState_bare ..))
      | none =>
        dsimp only
        -- the request with its voting cycle
        generalize hCycle : (if (r.getLastState s.env.mapBlockIndex == Flags.nil) = true then
          { r with nVotingCycle := s.nVotingCycles pblockindex (s.nCycleLength + 1) } else r) = r'
        have hBare : r'.bare = r.bare := by
          rw [← hCycle]
          split <;> rfl
        split
        · exact .single (.paymentRequest hr hBare)
        · split
          · exact .single (.paymentRequest hr hBare)
          · rw [CStateView.setPaymentRequest_twice]
            exact .single (.paymentRequest hr hBare)

theorem stepProposal_writes : Writes Edit.keepsBare st.1 (stepProposal s st hash).1 := by
  unfold stepProposal
  split
  case h_1 => exact .refl _
  case h_2 p hp =>
    split
    case h_1 => exact .refl _
    case h_2 pblockindex _ =>
      cases s.pindexDelete with
      | some d => exact .single (.proposal hp (CProposal.undoState_bare ..))
      | none =>
        dsimp only
        generalize getConsensusParameter s.env st.1 .proposalMaxVotingCycles + 1 = bound
        generalize hCycle : (if (p.getLastState s.env.mapBlockIndex == Flags.nil) = true then
          { p with nVotingCycle := s.nVotingCycles pblockindex bound } else p) = p'
        have hBare : p'.bare = p.bare := by
          rw [← hCycle]
          split <;> rfl
        split
        · exact .single (.proposal hp hBare)
        · split
          · exact .single (.proposal hp hBare)
          · rw [CStateView.setProposal_twice]
            exact .single (.proposal hp hBare)

theorem stepFund_writes {fund : Fund} : Writes Edit.keepsBare view (stepFund s view fund).1 :=
  Writes.trans (.foldl Prod.fst (fun _ _ => stepPaymentRequest_writes) _ (view, fund))
    (.foldl Prod.fst (fun _ _ => stepProposal_writes) _ _)

theorem stepConsultation_writes {changes : Map Nat Nat} :
    Writes Edit.keepsBare view (stepConsultation s changes view hash) := by
  unfold stepConsultation
  split
  case h_1 => exact .refl _
  case h_2 c hc =>
    split
    case h_1 => exact .refl _
    case h_2 pblockindex _ =>
      split
      case h_1 => exact .single (.consultation hc (CConsultation.undoState_bare ..))
      case h_2 =>
        dsimp only
        generalize getConsensusParameter s.env view .consultationMaxVotingCycles + 1 = bound
        generalize hCycle : (if (c.getLastState s.env.mapBlockIndex != Flags.expired &&
          c.getLastState s.env.mapBlockIndex != Flags.passed) = true then
          { c with nVotingCycle := s.nVotingCycles pblockindex bound } else c) = c'
        have hBare : c'.bare = c.bare := by
          rw [← hCycle]
          split <;> rfl
        split
        · exact .single (.consultation hc hBare)
        · refine .single (.consultation hc ?_)
          show CConsultation.bare _ = c.bare
          rw [← hBare]
          repeat' split
          all_goals rfl

end Electrum
