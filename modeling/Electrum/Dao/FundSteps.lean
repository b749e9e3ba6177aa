import Electrum.Dao.FundSums
import Electrum.Dao.StepMoves

/-!
# The fund in one call of VoteStep

Money moves in the two loops over payment requests and proposals: a granted request takes from
what is reserved, an accepted proposal reserves from the supply, an expired one gives back.
Every turn keeps the fund sound, as long as no granted request and no funded proposal is
turned down by its old votes.

Main results:
* `RequestTurn.keepsFund`, `ProposalTurn.keepsFund` — one turn
* `StepRun.keepsFund` — a call
-/

namespace Electrum

/-- The sum of the three pools. -/
def fundTotal (env : Env) (view : CStateView) (fund : Fund) : Int :=
  fund.nCFSupply + fund.nCFLocked + granted env view

/-- The fund is sound and its total is the one before. -/
def FundKept (env : Env) (view : CStateView) (fund : Fund) (view' : CStateView) (fund' : Fund) :
    Prop :=
  FundSound env view' fund' ∧ fundTotal env view' fund' = fundTotal env view fund

/-- No state was entered at the height of a block. -/
structure FundUnder (s : StepContext) (view : CStateView) : Prop where
  requests : ∀ hash r, view.getPaymentRequest hash = some r →
    r.mapState.Under s.env.mapBlockIndex s.pindexNew
  proposals : ∀ hash p, view.getProposal hash = some p →
    p.mapState.Under s.env.mapBlockIndex s.pindexNew

/-- No granted request and no funded proposal counts as rejected. -/
@[mk_iff]
structure VerdictsStand (env : Env) (view : CStateView) (currentTime : Nat) : Prop where
  requests : ∀ hash r, view.getPaymentRequest hash = some r → r.isGranted env = true →
    r.isRejected env view = false
  proposals : ∀ hash p, view.getProposal hash = some p → p.isFunded env = true →
    p.isExpired env view currentTime = true ∨ p.isRejected env view = false

instance (env : Env) (view : CStateView) (currentTime : Nat) :
    Decidable (VerdictsStand env view currentTime) :=
  decidable_of_iff _ (verdictsStand_iff env view currentTime).symm

variable {env : Env} {view view' : CStateView} {fund : Fund}

theorem CPaymentRequest.isGranted_iff {r : CPaymentRequest} :
    r.isGranted env = true ↔ r.getLastState env.mapBlockIndex = .accepted ∨
      r.getLastState env.mapBlockIndex = .paid := by
  simp [isGranted]

theorem CProposal.isFunded_iff {p : CProposal} :
    p.isFunded env = true ↔ p.getLastState env.mapBlockIndex = .accepted ∨
      p.getLastState env.mapBlockIndex = .pendingVotingPreq := by
  simp [isFunded]

/-- A request that waits for a vote belongs to a funded proposal. -/
theorem CProposal.isFunded_of_pending {hash : UInt256}
    {p : CProposal} (hp : view.getProposal hash = some p) (hKeyed : p.hash = hash)
    (h : p.hasPendingPaymentRequests env view = true) : p.isFunded env = true := by
  obtain ⟨it, -, hIt⟩ := List.any_eq_true.mp h
  rw [Bool.and_eq_true, beq_iff_eq, hKeyed] at hIt
  obtain ⟨hProposal, hVote⟩ := hIt
  unfold CPaymentRequest.canVote at hVote
  rw [hProposal, hp] at hVote
  rw [Bool.and_eq_true] at hVote
  exact hVote.2

theorem FundKept.trans {view'' : CStateView} {fund' fund'' : Fund}
    (h : FundKept env view fund view' fund') (h' : FundKept env view' fund' view'' fund'') :
    FundKept env view fund view'' fund'' :=
  ⟨h'.1, h'.2.trans h.2⟩

/-- A view with the same books, and the fund with it. -/
theorem FundSound.keepsTotal (h : FundSound env view fund) (hBooks : SameBooks env view view')
    (hKeeps : KeepsProposals view view') :
    FundKept env view fund view' fund := by
  refine ⟨h.of_sameBooks hBooks hKeeps rfl (Int.le_refl _), ?_⟩
  rw [fundTotal, hBooks.sums.1, fundTotal]

/-! ## One turn -/

section Turn

variable {s : StepContext} (hKnown : s.env.mapBlockIndex[s.pindexNew.phashBlock]? = some s.pindexNew)
  (hPos : 0 < s.pindexNew.nHeight) {view : CStateView} (hSolid : Solid view) {fund fund' : Fund}
  (hSound : FundSound s.env view fund) {hash : UInt256}

include hKnown hPos hSolid hSound

/-- **A turn of a request.** -/
theorem RequestTurn.keepsFund {r r' : CPaymentRequest}
    (h : RequestTurn s view fund hash r r' fund') (hr : view.getPaymentRequest hash = some r)
    (hUnder : r.mapState.Under s.env.mapBlockIndex s.pindexNew)
    (hTest : s.isCycleEnd = true → r.isGranted s.env = true → r.isRejected s.env view = false) :
    FundKept s.env view fund (view.setPaymentRequest hash r') fund' := by
  have hCore := hSolid.paymentRequests hash r hr
  have hNull : r'.isNull = false := CPaymentRequest.notNull_of_core (h.solid hCore)
  have hAmount : r'.nAmount = r.nAmount := by rw [h.kept]
  have hProposal : r'.proposalhash = r.proposalhash := by rw [h.kept]
  -- a turn that grants nothing and takes nothing back changes no sum
  have hSame : r'.isGranted s.env = r.isGranted s.env → fund' = fund →
      FundKept s.env view fund (view.setPaymentRequest hash r') fund' := by
    rintro hGranted rfl
    have hBooks : SameBooks s.env view (view.setPaymentRequest hash r') :=
      .setPaymentRequest hr hNull (CPaymentRequest.book_congr hAmount hProposal hGranted)
    exact hSound.keepsTotal hBooks (.of_eq rfl)
  cases h with
  | skip => exact hSame rfl rfl
  | stay pblockindex =>
    refine hSame ?_ rfl
    rw [CPaymentRequest.recount_eq]
    rfl
  | @move pblockindex proposal state hp hEnd hNext =>
    have hState : ((r.recount s pblockindex).setState s.pindexNew state).getLastState
        s.env.mapBlockIndex = state := by
      rw [CPaymentRequest.recount_eq]
      exact hUnder.getLastState_setState hKnown hPos state
    have hGranted' : ((r.recount s pblockindex).setState s.pindexNew state).isGranted s.env =
        (state == .accepted || state == .paid) := by
      rw [CPaymentRequest.isGranted, hState]
    have hDecided : r.isGranted s.env = true → (r.recount s pblockindex) = r := by
      intro hGranted
      apply CPaymentRequest.recount_decided
      rcases CPaymentRequest.isGranted_iff.mp hGranted with h | h <;> simp [h]
    cases CPaymentRequest.nextState_next hNext with
    | expire hExpired =>
      -- a granted request does not expire
      have hOpen : r.isGranted s.env = false := by
        by_contra hGranted
        rw [Bool.not_eq_false] at hGranted
        rw [hDecided hGranted, CPaymentRequest.isExpired_decided
          ((CPaymentRequest.isGranted_iff.mp hGranted).imp_right .inr)] at hExpired
        cases hExpired
      exact hSame (hGranted'.trans hOpen.symm) rfl
    | reject hExpired hRejected =>
      -- nor is it rejected, by `hTest`
      have hOpen : r.isGranted s.env = false := by
        by_contra hGranted
        rw [Bool.not_eq_false] at hGranted
        have hNot := hTest hEnd hGranted
        rw [hDecided hGranted, CPaymentRequest.isRejected_congr
          (show (view.setPaymentRequest hash r).consensus = view.consensus from rfl),
          hNot] at hRejected
        cases hRejected
      exact hSame (hGranted'.trans hOpen.symm) rfl
    | accept hRejected hOld hFunded hAccepted hLocked hAvailable =>
      have hOpen : r.isGranted s.env = false := by
        rw [CPaymentRequest.isGranted, hOld]
        rfl
      -- what is available was computed after the recount, which changes no sum
      have hBooks : SameBooks s.env view
          (view.setPaymentRequest hash (r.recount s pblockindex)) := by
        have hStay : RequestTurn s view fund hash r (r.recount s pblockindex) fund :=
          .stay pblockindex
        refine .setPaymentRequest hr (CPaymentRequest.notNull_of_core (hStay.solid hCore)) ?_
        rw [CPaymentRequest.recount_eq]
        rfl
      rw [proposal.getAvailable_eq, hBooks.sums.2.1, ← proposal.getAvailable_eq,
        show (r.recount s pblockindex).nAmount = r.nAmount by rw [CPaymentRequest.recount_eq]]
        at hAvailable
      refine ⟨hSound.grant hr hNull hOpen hGranted' hAmount hProposal hp
        (CProposal.isFunded_iff.mpr hFunded) hAvailable, ?_⟩
      rw [fundTotal, granted_grant hr hNull hOpen hGranted' hAmount, fundTotal]
      show fund.nCFSupply + (fund.nCFLocked - r.nAmount) + (granted s.env view + r.nAmount) = _
      omega

/-- **A turn of a proposal.** -/
theorem ProposalTurn.keepsFund {p p' : CProposal} (h : ProposalTurn s view fund hash p p' fund')
    (hp : view.getProposal hash = some p)
    (hUnder : p.mapState.Under s.env.mapBlockIndex s.pindexNew)
    (hTest : s.isCycleEnd = true → p.isFunded s.env = true →
      p.isExpired s.env view s.pindexNew.nTime = true ∨ p.isRejected s.env view = false) :
    FundKept s.env view fund (view.setProposal hash p') fund' := by
  have hCore := hSolid.proposals hash p hp
  have hNull : p'.isNull = false := CProposal.notNull_of_core (h.solid hCore)
  have hAmount : p'.nAmount = p.nAmount := by rw [h.kept]
  have hHash : p'.hash = p.hash := by rw [h.kept]
  -- coins that leave the supply are reserved
  have hMoves := fun hSupply hLocked (hSum : fund'.nCFSupply + fund'.nCFLocked =
      fund.nCFSupply + fund.nCFLocked) =>
    show FundKept s.env view fund (view.setProposal hash p') fund' from
    ⟨hSound.changeProposal hp hNull hAmount hHash hSupply hLocked,
      congrArg (· + granted s.env view) hSum⟩
  -- a turn that reserves nothing and releases nothing changes no sum
  have hSame : p'.isFunded s.env = p.isFunded s.env → fund' = fund →
      FundKept s.env view fund (view.setProposal hash p') fund' := by
    rintro hFunded rfl
    refine hMoves hSound.supply ?_ rfl
    rw [hFunded]
    omega
  cases h with
  | skip => exact hSame rfl rfl
  | stay pblockindex =>
    refine hSame ?_ rfl
    rw [CProposal.recount_eq]
    rfl
  | @move pblockindex state hEnd hNext =>
    have hState : ((p.recount s view pblockindex).setState s.pindexNew state).getLastState
        s.env.mapBlockIndex = state := by
      rw [CProposal.recount_eq]
      exact hUnder.getLastState_setState hKnown hPos state
    have hFunded' : ((p.recount s view pblockindex).setState s.pindexNew state).isFunded s.env =
        (state == .accepted || state == .pendingVotingPreq) := by
      rw [CProposal.isFunded, hState]
    have hRecounted : (p.recount s view pblockindex).isFunded s.env = p.isFunded s.env := by
      rw [CProposal.recount_eq]
      rfl
    have hRecountNull : (p.recount s view pblockindex).isNull = false := by
      have hStay : ProposalTurn s view fund hash p (p.recount s view pblockindex) fund :=
        .stay pblockindex
      exact CProposal.notNull_of_core (hStay.solid hCore)
    -- what is available does not depend on the counters
    have hAvailable : (p.recount s view pblockindex).getAvailable s.env
        (view.setProposal hash (p.recount s view pblockindex)) false =
        p.getAvailable s.env view false := by
      rw [CProposal.getAvailable_eq, CProposal.getAvailable_eq, CProposal.recount_eq]
      rfl
    have hNonneg := hSound.available_nonneg hp
    rw [hAvailable] at hMoves hSame ⊢
    cases CProposal.nextState_next hNext with
    | wait hExpired hOld hPending =>
      -- only a funded proposal has requests that wait for a vote
      have hFunded : p.isFunded s.env = true := by
        have hGet : (view.setProposal hash (p.recount s view pblockindex)).getProposal hash =
            some (p.recount s view pblockindex) := by
          rw [CStateView.getProposal_set hRecountNull, if_pos rfl]
        have hKeyed : (p.recount s view pblockindex).hash = hash := by
          rw [CProposal.recount_eq]
          exact hSound.keyed hash p hp
        rw [← hRecounted]
        exact CProposal.isFunded_of_pending hGet hKeyed hPending
      exact hSame (hFunded'.trans hFunded.symm) rfl
    | expire hExpired hOld =>
      cases hFunded : p.isFunded s.env with
      | false =>
        refine hSame (hFunded'.trans hFunded.symm) ?_
        unfold CProposal.isFunded at hFunded
        simp [Fund.onProposal, hFunded]
      | true =>
        -- the coins go back to the supply
        have hFund : fund.onProposal (p.getAvailable s.env view false)
            (p.getLastState s.env.mapBlockIndex) .expired =
            ⟨fund.nCFSupply + p.getAvailable s.env view false,
              fund.nCFLocked - p.getAvailable s.env view false⟩ := by
          unfold CProposal.isFunded at hFunded
          simp [Fund.onProposal, hFunded]
        rw [hFund] at hMoves ⊢
        refine hMoves (Int.add_nonneg hSound.supply hNonneg) ?_ (add_add_sub_cancel _ _ _)
        rw [hFunded', if_pos hFunded]
        exact (Int.add_zero _).symm
    | reject hExpired hRejected =>
      have hOpen : p.isFunded s.env = false := by
        by_contra hFunded
        rw [Bool.not_eq_false] at hFunded
        have hDecided : p.recount s view pblockindex = p := by
          apply CProposal.recount_decided
          rcases CProposal.isFunded_iff.mp hFunded with h | h <;> simp [h]
        have hParams : (view.setProposal hash p).consensus = view.consensus := rfl
        rw [hDecided, CProposal.isRejected_congr hParams] at hRejected
        rw [hDecided, CProposal.isExpired_congr hParams] at hExpired
        rcases hTest hEnd hFunded with hTrue | hFalse
        · rw [hExpired] at hTrue
          cases hTrue
        · rw [hRejected] at hFalse
          cases hFalse
      exact hSame (hFunded'.trans hOpen.symm) rfl
    | accept hOld hSupply =>
      -- the coins are reserved
      rw [hAvailable] at hSupply
      have hOpen : p.isFunded s.env = false := by
        unfold CProposal.isFunded
        rcases hOld with h | h <;> rw [h] <;> rfl
      refine hMoves (Int.sub_nonneg_of_le hSupply) ?_ (sub_add_add_cancel _ _ _)
      rw [hFunded', hOpen]
      show fund.nCFLocked + p.getAvailable s.env view false = fund.nCFLocked - 0 + _
      rw [Int.sub_zero]
      rfl
    | lackFunds hOld =>
      have hOpen : p.isFunded s.env = false := by
        unfold CProposal.isFunded
        rw [hOld]
        rfl
      exact hSame (hFunded'.trans hOpen.symm) rfl

end Turn

/-! ## The loops -/

section Loops

variable {s : StepContext} (hs : s.pindexDelete = none)
  (hKnown : s.env.mapBlockIndex[s.pindexNew.phashBlock]? = some s.pindexNew)
  (hPos : 0 < s.pindexNew.nHeight) {view : CStateView} (hSolid : Solid view) {fund : Fund}
  (hSound : FundSound s.env view fund)
include hs hKnown hPos hSolid hSound

/-- **The loop over the requests.** -/
theorem stepRequests_keepsFund (hUnder : ∀ hash r, view.getPaymentRequest hash = some r →
      r.mapState.Under s.env.mapBlockIndex s.pindexNew)
    (hTest : s.isCycleEnd = true → ∀ hash r, view.getPaymentRequest hash = some r →
      r.isGranted s.env = true → r.isRejected s.env view = false) :
    FundKept s.env view fund (stepRequests s view fund).1 (stepRequests s view fund).2 := by
  refine requestTable.foldl_induct _ Prod.fst (view, fund) CPaymentRequest.notNull_of_core
    (stepPaymentRequest_none (s := s)) (stepPaymentRequest_table hs hSolid)
    (Map.nodup_keys view.paymentRequests) (Map.mem_keys_iff view.paymentRequests)
    hSolid.paymentRequests
    (P := fun st => FundKept s.env view fund st.1 st.2) ⟨hSound, rfl⟩ ?_
  intro st hash r hTable hSt hr hr'
  have hLoop : RequestLoop view st := .of_loop hSolid hTable
  have hParams : st.1.consensus = view.consensus := by rw [hLoop.frame]
  obtain ⟨r', fund', hTurn, hEq⟩ := stepPaymentRequest_turn hs hLoop.solid hr'
  rw [hEq]
  refine hSt.trans (hTurn.keepsFund hKnown hPos hLoop.solid hSt.1 hr' (hUnder hash r hr) ?_)
  intro hEnd hGranted
  rw [CPaymentRequest.isRejected_congr hParams]
  exact hTest hEnd hash r hr hGranted

/-- **The loop over the proposals.** -/
theorem stepProposals_keepsFund (hUnder : ∀ hash p, view.getProposal hash = some p →
      p.mapState.Under s.env.mapBlockIndex s.pindexNew)
    (hTest : s.isCycleEnd = true → ∀ hash p, view.getProposal hash = some p →
      p.isFunded s.env = true →
      p.isExpired s.env view s.pindexNew.nTime = true ∨ p.isRejected s.env view = false) :
    FundKept s.env view fund (stepProposals s view fund).1 (stepProposals s view fund).2 := by
  refine proposalTable.foldl_induct _ Prod.fst (view, fund) CProposal.notNull_of_core
    (stepProposal_none (s := s)) (stepProposal_table hs hSolid)
    (Map.nodup_keys view.proposals) (Map.mem_keys_iff view.proposals) hSolid.proposals
    (P := fun st => FundKept s.env view fund st.1 st.2) ⟨hSound, rfl⟩ ?_
  intro st hash p hTable hSt hp hp'
  have hLoop : ProposalLoop view st := .of_loop hSolid hTable
  have hParams : st.1.consensus = view.consensus := by rw [hLoop.frame]
  obtain ⟨p', fund', hTurn, hEq⟩ := stepProposal_turn hs hLoop.solid hp'
  rw [hEq]
  refine hSt.trans (hTurn.keepsFund hKnown hPos hLoop.solid hSt.1 hp' (hUnder hash p hp) ?_)
  intro hEnd hFunded
  rw [CProposal.isRejected_congr hParams, CProposal.isExpired_congr hParams]
  exact hTest hEnd hash p hp hFunded

/-- **The two loops.** -/
theorem stepFund_keepsFund (hUnder : FundUnder s view)
    (hVerdicts : s.isCycleEnd = true → VerdictsStand s.env view s.pindexNew.nTime) :
    FundKept s.env view fund (stepFund s view fund).1 (stepFund s view fund).2 := by
  have hLoop := (stepRequests_spec hs hSolid fund).1
  have hParams : (stepRequests s view fund).1.consensus = view.consensus := by rw [hLoop.frame]
  have hProposals : ∀ hash, (stepRequests s view fund).1.getProposal hash =
      view.getProposal hash := by
    intro hash
    rw [hLoop.frame]
    rfl
  have hRequests := stepRequests_keepsFund hs hKnown hPos hSolid hSound hUnder.requests
    (fun hEnd => (hVerdicts hEnd).requests)
  rw [stepFund_eq hs hSolid]
  refine hRequests.trans (stepProposals_keepsFund hs hKnown hPos hLoop.solid hRequests.1
    (fun hash p hp => hUnder.proposals hash p ((hProposals hash).symm.trans hp)) ?_)
  intro hEnd hash p hp hFunded
  rw [CProposal.isRejected_congr hParams, CProposal.isExpired_congr hParams]
  exact (hVerdicts hEnd).proposals hash p ((hProposals hash).symm.trans hp) hFunded

end Loops

/-! ## The call -/

theorem CountsOnly.keepsFund (h : CountsOnly env view view') (hSound : FundSound env view fund) :
    FundKept env view fund view' fund :=
  hSound.keepsTotal (h.toSameCore.sameBooks env) h.toSameCore.keepsProposals

theorem FundUnder.of_sameCore {s : StepContext} (h : FundUnder s view) (hSame : SameCore view view') :
    FundUnder s view' := by
  refine ⟨fun hash r hr => ?_, fun hash p hp => ?_⟩
  · obtain ⟨q, hq, hCore⟩ := Map.core_of_some (hSame.paymentRequests hash) hr
    rw [CPaymentRequest.eq_of_core hCore]
    exact h.requests hash q hq
  · obtain ⟨q, hq, hCore⟩ := Map.core_of_some (hSame.proposals hash) hp
    rw [CProposal.eq_of_core hCore]
    exact h.proposals hash q hq

/-- Counting changes no decided object, so the verdicts on those stand. -/
theorem VerdictsStand.counted {currentTime : Nat}
    (h : VerdictsStand env view currentTime) (hCounts : CountsOnly env view view') :
    VerdictsStand env view' currentTime := by
  have hParams := hCounts.consensus
  refine ⟨fun hash r hr hGranted => ?_, fun hash p hp hFunded => ?_⟩
  · obtain ⟨q, hq, hCore⟩ := Map.core_of_some (hCounts.paymentRequests hash) hr
    have hSame : q.isGranted env = r.isGranted env := by
      rw [CPaymentRequest.eq_of_core hCore]
      rfl
    have hDecided : q.getLastState env.mapBlockIndex ≠ .nil := by
      rcases CPaymentRequest.isGranted_iff.mp (hSame.trans hGranted) with h | h <;> simp [h]
    have hStay := hCounts.decidedRequests hash q hq hDecided
    rw [hr] at hStay
    cases hStay
    rw [CPaymentRequest.isRejected_congr hParams]
    exact h.requests hash r hq hGranted
  · obtain ⟨q, hq, hCore⟩ := Map.core_of_some (hCounts.proposals hash) hp
    have hSame : q.isFunded env = p.isFunded env := by
      rw [CProposal.eq_of_core hCore]
      rfl
    have hDecided : q.getLastState env.mapBlockIndex ≠ .nil := by
      rcases CProposal.isFunded_iff.mp (hSame.trans hFunded) with h | h <;> simp [h]
    have hStay := hCounts.decidedProposals hash q hq hDecided
    rw [hp] at hStay
    cases hStay
    rw [CProposal.isRejected_congr hParams, CProposal.isExpired_congr hParams]
    exact h.proposals hash p hq hFunded

/-- **The call.** It keeps the fund sound and the total of the pools. -/
theorem StepRun.keepsFund {s : StepContext} {fCFund fDAOConsultations : Bool} {c : VoteCache}
    {fund' : Fund} (run : StepRun s fCFund fDAOConsultations c fund view fund' view')
    (hs : s.pindexDelete = none) (hSolid : Solid view)
    (hKnown : s.env.mapBlockIndex[s.pindexNew.phashBlock]? = some s.pindexNew)
    (hPos : 0 < s.pindexNew.nHeight) (hSound : FundSound s.env view fund)
    (hUnder : FundUnder s view)
    (hVerdicts : fCFund = true → s.isCycleEnd = true → VerdictsStand s.env view s.pindexNew.nTime) :
    FundKept s.env view fund view' fund' := by
  have hCounts := run.counted_countsOnly hs hSolid
  have hCounted := hCounts.keepsFund hSound
  -- the two loops
  have hLoops : ∀ q : CStateView × Fund,
      q = (if fCFund then stepFund s run.counted fund else (run.counted, fund)) →
      FundKept s.env view fund q.1 q.2 := by
    intro q hq
    split at hq
    case isFalse =>
      rw [hq]
      exact hCounted
    case isTrue hActive =>
      rw [hq]
      exact hCounted.trans (stepFund_keepsFund hs hKnown hPos (run.counted_solid hs hSolid)
        hCounted.1 (hUnder.of_sameCore hCounts.toSameCore)
        (fun hEnd => (hVerdicts hActive hEnd).counted hCounts))
  have hDecided := hLoops _ run.decided_eq
  -- the rest leaves the fund's objects alone, up to counters
  have hChanged : FundKept s.env view fund run.changed fund' := by
    rw [(run.changed_frame hs hSolid).1]
    exact hDecided.trans (hDecided.1.keepsTotal ⟨fun _ => rfl, fun _ => rfl⟩ (.of_eq rfl))
  have hRestarted :=
    hChanged.trans ((run.restarted_countsOnly hs hSolid).keepsFund hChanged.1)
  rw [run.result_frame]
  exact hRestarted.trans (hRestarted.1.keepsTotal ⟨fun _ => rfl, fun _ => rfl⟩ (.of_eq rfl))

end Electrum
