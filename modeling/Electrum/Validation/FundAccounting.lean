import Electrum.Dao.FundSteps
import Electrum.Validation.Finality

/-!
# Fund accounting

The coins of the fund lie in three pools: the supply, what is reserved for accepted proposals,
and what was granted to payment requests.  Blocks put coins into the supply; everything else
moves coins between the pools, and no pool and no proposal is overdrawn.  As for decisions, the
one thing that breaks the books is a granted request, or a funded proposal, that its old votes
turn down later.

Main results:
* `TipRun.keepsFund` — what one block does to the pools
* `fund_accounting` — the books along a run
-/

namespace Electrum

open List

/-- The block is above the fork, which made the payout loop look at states, and turns down
nothing that was granted or funded. -/
structure KeepsGrants (node : Node) (st : ChainState) (block : CBlock) (pindex : CBlockIndex) :
    Prop where
  fork : node.params.nHeightv452Fork ≤ tipHeight st.chain
  verdicts : node.isActive .communityFund st.chain = true →
    endsCycle node.toEnv st.view pindex → VerdictsStand node.toEnv st.view pindex.nTime

/-! ## The phases of ConnectBlock -/

variable {view view' : CStateView} {node : Node} {pindex : CBlockIndex} {block : CBlock}
  {st st' : ChainState}

/-- New objects are neither granted nor funded. -/
theorem Grows.sameBooks {block : UInt256} (h : Grows block view view')
    (env : Env) : SameBooks env view view' := by
  refine ⟨fun hash => ?_, fun hash => ?_⟩
  · cases hr : view.getPaymentRequest hash with
    | some r => rw [h.requests hash r hr]
    | none =>
      cases hr' : view'.getPaymentRequest hash with
      | none => rfl
      | some r =>
        rcases h.newRequests hash r hr' with hOld | ⟨hNew, -⟩
        · rw [hr] at hOld
          cases hOld
        · have hNot : r.isGranted env = false := by
            rw [CPaymentRequest.isGranted, CPaymentRequest.getLastState, hNew.stateless]
            rfl
          simp [CPaymentRequest.book, hNot]
  · cases hp : view.getProposal hash with
    | some p => rw [h.proposals hash p hp]
    | none =>
      cases hp' : view'.getProposal hash with
      | none => rfl
      | some p =>
        rcases h.newProposals hash p hp' with hOld | hNew
        · rw [hp] at hOld
          cases hOld
        · have hNot : p.isFunded env = false := by
            rw [CProposal.isFunded, CProposal.getLastState, hNew.stateless]
            rfl
          simp [CProposal.book, hNot]

theorem Grows.keepsProposals {block : UInt256}
    (h : Grows block view view') : KeepsProposals view view' := by
  refine ⟨fun hash p hp => ⟨p, h.proposals hash p hp⟩, fun hash p' hp' => ?_⟩
  cases hp : view.getProposal hash with
  | some p =>
    rw [h.proposals hash p hp] at hp'
    cases hp'
    exact .inl ⟨_, rfl, rfl, rfl⟩
  | none =>
    rcases h.newProposals hash p' hp' with hOld | hNew
    · rw [hp] at hOld
      cases hOld
    · exact .inr ⟨rfl, hNew.keyed, hNew.amount⟩

/-- After the fork a payout turns a granted request into a granted one. -/
theorem PaysOut.sameBooks {pprev : Chain} {listed : List UInt256}
    (h : PaysOut node pindex pprev listed view view')
    (hFork : node.params.nHeightv452Fork ≤ tipHeight pprev)
    (hKnown : node.mapBlockIndex[pindex.phashBlock]? = some pindex)
    (hBelow : StatesBelow node.toEnv (tipHeight pprev) view)
    (hAbove : tipHeight pprev < pindex.nHeight) : SameBooks node.toEnv view view' := by
  refine ⟨fun hash => ?_, fun hash => ?_⟩
  · cases hr : view.getPaymentRequest hash with
    | none => rw [h.none hash hr]
    | some r =>
      rcases h.requests hash r hr with hSame | ⟨hPaid, -, tip, hTip, hAccepted⟩
      · rw [hSame]
      · rw [hPaid]
        have hOld : r.isGranted node.toEnv = true := by
          rw [CPaymentRequest.isGranted_iff]
          exact .inl (hAccepted (by simpa [tipHeight, hTip] using hFork))
        have hNew : (r.setState pindex .paid).isGranted node.toEnv = true := by
          rw [CPaymentRequest.isGranted_iff]
          exact .inr ((hBelow.paymentRequests hash r hr).getLastState_setState hKnown hAbove .paid)
        exact CPaymentRequest.book_congr rfl rfl (hNew.trans hOld.symm)
  · rw [h.frame]
    rfl

theorem getValueOutCFund_nonneg {tx : CTransaction} (h : checkTransaction tx = true) :
    0 ≤ tx.getValueOutCFund := by
  apply sum_nonneg
  intro value hValue
  obtain ⟨out, hOut, rfl⟩ := mem_map.mp hValue
  exact checkTransaction_vout_nonneg h out (mem_of_mem_filter hOut)

theorem blockContribution_nonneg
    (h : checkBlock node block = true) : 0 ≤ blockContribution node block := by
  unfold blockContribution
  split
  · exact Int.le_refl 0
  · apply sum_nonneg
    intro value hValue
    obtain ⟨tx, hTx, rfl⟩ := mem_map.mp hValue
    unfold checkBlock at h
    split at h
    · cases h
    · rw [Bool.and_eq_true, all_eq_true] at h
      exact getValueOutCFund_nonneg (h.2 tx hTx)

/-! ## One block -/

/-- The verdicts before a block stand after its transactions and payouts. -/
theorem TipRun.verdicts_paid (run : TipRun node block pindex st st')
    (hFork : node.params.nHeightv452Fork ≤ tipHeight st.chain)
    (h : VerdictsStand node.toEnv st.view pindex.nTime) :
    VerdictsStand node.toEnv run.paid pindex.nTime := by
  have hParams := run.paid_consensus
  refine ⟨fun hash r' hr' hGranted => ?_, fun hash p hp hFunded => ?_⟩
  · rw [CPaymentRequest.isRejected_congr hParams]
    -- a granted request was there before the block, and was granted
    have hOld : ∀ r, run.grown.getPaymentRequest hash = some r →
        r.isGranted node.toEnv = true → r.isRejected node.toEnv st.view = false := by
      intro r hr hGranted
      rcases run.grows.newRequests hash r hr with hr0 | ⟨hNew, -⟩
      · exact h.requests hash r hr0 hGranted
      · rw [CPaymentRequest.isGranted, CPaymentRequest.getLastState, hNew.stateless] at hGranted
        cases hGranted
    cases hr : run.grown.getPaymentRequest hash with
    | none =>
      rw [run.pays.none hash hr] at hr'
      cases hr'
    | some r =>
      rcases run.pays.requests hash r hr with hSame | ⟨hPaid, -, tip, hTip, hAccepted⟩
      · rw [hSame] at hr'
        cases hr'
        exact hOld r' hr hGranted
      · rw [hPaid] at hr'
        cases hr'
        have hState := hAccepted (by simpa [tipHeight, hTip] using hFork)
        exact hOld r hr (CPaymentRequest.isGranted_iff.mpr (.inl hState))
  · rw [CProposal.isRejected_congr hParams, CProposal.isExpired_congr hParams]
    have hGrown : run.grown.getProposal hash = some p := by
      rw [run.pays.frame] at hp
      exact hp
    rcases run.grows.newProposals hash p hGrown with hp0 | hNew
    · exact h.proposals hash p hp0 hFunded
    · rw [CProposal.isFunded, CProposal.getLastState, hNew.stateless] at hFunded
      cases hFunded

/-- **One block.** The pools change by what the block pays to the fund. -/
theorem TipRun.keepsFund (run : TipRun node block pindex st st')
    (hExt : Extends node st.chain block pindex) (hSane : Sane node st)
    (hSound : FundSound node.toEnv st.view st.fund) (hKeeps : KeepsGrants node st block pindex) :
    FundSound node.toEnv st'.view st'.fund ∧ fundTotal node.toEnv st'.view st'.fund =
        fundTotal node.toEnv st.view st.fund + blockContribution node block := by
  have hAbove := hExt.above
  have hGrown := run.grown_below hSane
  -- the transactions and the payouts
  have hBooks : SameBooks node.toEnv st.view run.paid :=
    (run.grows.sameBooks node.toEnv).trans
      (run.pays.sameBooks hKeeps.fork hExt.known hGrown hAbove)
  have hProposals : KeepsProposals st.view run.paid := by
    have hSame : ∀ hash, run.paid.getProposal hash = run.grown.getProposal hash := by
      intro hash
      rw [run.pays.frame]
      rfl
    have hGrows := run.grows.keepsProposals
    exact ⟨fun hash p hp => (hGrows.kept hash p hp).imp fun _ h => (hSame hash).trans h,
      fun hash p hp => hGrows.back hash p ((hSame hash).symm.trans hp)⟩
  have hPaid : FundSound node.toEnv run.paid run.fund := by
    refine hSound.of_sameBooks hBooks hProposals ?_ ?_
    · rw [run.contributed]
    · rw [run.contributed]
      have hNonneg := blockContribution_nonneg run.checked
      show st.fund.nCFSupply ≤ st.fund.nCFSupply + blockContribution node block
      omega
  have hPaidTotal : fundTotal node.toEnv run.paid run.fund =
      fundTotal node.toEnv st.view st.fund + blockContribution node block := by
    rw [fundTotal, hBooks.sums.1, run.contributed, fundTotal]
    show st.fund.nCFSupply + blockContribution node block + st.fund.nCFLocked + _ = _
    omega
  -- the votes
  have hVote := run.run.keepsFund rfl (run.paid_solid hSane) hExt.known
    (Nat.lt_of_le_of_lt (Nat.zero_le _) hAbove) hPaid
    ⟨fun hash r' hr' => by
      obtain ⟨r, hr, hCase⟩ := run.pays.request_back hr'
      have hUnder := (hGrown.paymentRequests hash r hr).under hAbove
      rcases hCase with rfl | rfl
      · exact hUnder
      · exact hUnder.setState .paid,
      fun hash p hp => by
      rw [run.pays.frame] at hp
      exact (hGrown.proposals hash p hp).under hAbove⟩
    (fun hActive hEnd => run.verdicts_paid hKeeps.fork
      (hKeeps.verdicts hActive (run.endsCycle_of_isCycleEnd hEnd)))
  exact ⟨hVote.1, hVote.2.trans hPaidTotal⟩

/-- **Step.** A connected block moves the pools by its contributions; a rejected one leaves
them. -/
theorem fundSound_step (hSane : Sane node st)
    (hSound : FundSound node.toEnv st.view st.fund) (hExt : Extends node st.chain block pindex)
    (hKeeps : KeepsGrants node st block pindex) (h : connectTip node block pindex st = some st') :
    FundSound node.toEnv st'.view st'.fund ∧ (st'.chain = st.chain ∧
          fundTotal node.toEnv st'.view st'.fund = fundTotal node.toEnv st.view st.fund ∨
        st'.chain = pindex :: st.chain ∧ fundTotal node.toEnv st'.view st'.fund =
          fundTotal node.toEnv st.view st.fund + blockContribution node block) := by
  rcases connectTip_run hExt.hashes h with ⟨recorded, rfl⟩ | ⟨⟨run⟩⟩
  · exact ⟨hSound, .inl ⟨rfl, rfl⟩⟩
  · obtain ⟨hSound', hTotal⟩ := run.keepsFund hExt hSane hSound hKeeps
    exact ⟨hSound', .inr ⟨run.chain, hTotal⟩⟩

/-- **Fund accounting.** In every state that a run reaches the numbers of the fund agree with
the books, none is negative and no proposal is overdrawn; and the next block changes the total
of the pools by its contributions. -/
theorem fund_accounting {node : Node} {st st' : ChainState} (hSane : Sane node st)
    (hSound : FundSound node.toEnv st.view st.fund)
    (hRun : ChainRun node (KeepsGrants node) st st') :
    (st'.fund.nCFLocked = reserved node.toEnv st'.view ∧
      0 ≤ st'.fund.nCFSupply ∧ 0 ≤ st'.fund.nCFLocked ∧
      ∀ hash p, st'.view.getProposal hash = some p →
        claimed node.toEnv st'.view p.hash ≤ p.nAmount) ∧
    ∀ block pindex st'', Extends node st'.chain block pindex →
      KeepsGrants node st' block pindex → connectTip node block pindex st' = some st'' →
      st''.chain = st'.chain ∧
          fundTotal node.toEnv st''.view st''.fund = fundTotal node.toEnv st'.view st'.fund ∨
        st''.chain = pindex :: st'.chain ∧ fundTotal node.toEnv st''.view st''.fund =
          fundTotal node.toEnv st'.view st'.fund + blockContribution node block := by
  have hStep : ∀ s t, Sane node s ∧ FundSound node.toEnv s.view s.fund →
      TipStep node (KeepsGrants node) s t → Sane node t ∧ FundSound node.toEnv t.view t.fund := by
    rintro s t ⟨hs, hFund⟩ hStep
    refine ⟨sane_step hs hStep, ?_⟩
    obtain ⟨block, pindex, hExt, hKeeps, hConnect⟩ := hStep
    exact (fundSound_step hs hFund hExt hKeeps hConnect).1
  obtain ⟨hSane', hSound'⟩ := run_invariant hRun ⟨hSane, hSound⟩ hStep
  refine ⟨⟨hSound'.locked, hSound'.supply, hSound'.locked_nonneg, hSound'.within⟩, ?_⟩
  intro block pindex st'' hExt hKeeps hConnect
  exact (fundSound_step hSane' hSound' hExt hKeeps hConnect).2

/-! ## A request that is turned down after it was granted -/

/-- With a share of 75 percent the books balance after the block. -/
theorem fund_accounting_fundBlock :
    ∃ st, connectTip fundNode fundBlock (smallBlock 109) (fundState 7500) = some st ∧
      st.fund.nCFLocked = reserved fundNode.toEnv st.view ∧ 0 ≤ st.fund.nCFSupply := by
  obtain ⟨st, hst⟩ := Option.isSome_iff_exists.mp (show (connectTip fundNode fundBlock
    (smallBlock 109) (fundState 7500)).isSome = true by decide +kernel)
  have hSane : Sane fundNode (fundState 7500) := ⟨by decide +kernel, by decide +kernel⟩
  have hSound : FundSound fundNode.toEnv (fundState 7500).view (fundState 7500).fund := by
    decide +kernel
  have hKeeps : KeepsGrants fundNode (fundState 7500) fundBlock (smallBlock 109) :=
    ⟨by decide +kernel, fun _ _ => by decide +kernel⟩
  obtain ⟨⟨hLocked, hSupply, -⟩, -⟩ := fund_accounting hSane hSound
    (.single ⟨fundBlock, smallBlock 109, fundBlock_extends 7500, hKeeps, hst⟩)
  exact ⟨st, hst, hLocked, hSupply⟩

/-- With a share of 10 percent the granted request is rejected: its coins are neither reserved
again nor granted, although no parameter changes. -/
theorem fund_accounting_broken :
    Sane fundNode (fundState 1000) ∧
    FundSound fundNode.toEnv (fundState 1000).view (fundState 1000).fund ∧
    ∃ st, connectTip fundNode fundBlock (smallBlock 109) (fundState 1000) = some st ∧
      st.view.consensus = (fundState 1000).view.consensus ∧
      st.fund.nCFLocked = 95 ∧ reserved fundNode.toEnv st.view = 100 ∧
      blockContribution fundNode fundBlock = 0 ∧
      fundTotal fundNode.toEnv st.view st.fund =
        fundTotal fundNode.toEnv (fundState 1000).view (fundState 1000).fund - 5 := by
  exact ⟨⟨by decide +kernel, by decide +kernel⟩, by decide +kernel, by decide +kernel⟩

end Electrum
