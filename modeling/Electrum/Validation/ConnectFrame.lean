import Electrum.Lib.Fold
import Electrum.Validation.ConnectBlock

/-!
# What connecting a transaction changes

Every stage of the loop in `ConnectBlock` changes a small part of its state.  The lemmas here
say which, once per stage, and `connectTx_ok` puts them together; later proofs use these and
never unfold the loop.
-/

namespace Electrum

open ConnectState Option List Bool Electrum.Except

variable {st st' : ConnectState} {ctx : ConnectContext} {i : Nat} {tx : CTransaction}
  {view : CStateView} {node : Node} {block : CBlock}

theorem ConnectState.ensure_ok {check : Bool} :
    st.ensure check = .ok st' ↔ check = true ∧ st' = st := by
  unfold ensure
  cases check <;> simp [eq_comm]

theorem ConnectState.require_ok {α : Type} {value : Option α} {a : α} :
    st.require value = .ok a ↔ value = some a := by
  cases value <;> simp [require]

/-- A check that does not fail hands its state on. -/
theorem ConnectState.ensure_bind {β : Type} {check : Bool} {f : ConnectState → Outcome β} {r : β} :
    (st.ensure check >>= f) = .ok r ↔ check = true ∧ f st = .ok r := by
  unfold ensure
  cases check <;> simp [bind, Except.bind]

/-! ## Votes -/

/-- The state with other votes: in the voters' lists, in the block's record and in the local
list of votes taken. -/
def ConnectState.withVotes (st : ConnectState) (lists : Map (List UInt8) CVoteList)
    (recorded : RecordedVotes) (votes : Map (List UInt8 × UInt256) Int) : ConnectState :=
  { st with view := { st.view with votes := lists }, recorded := recorded, votes := votes }

/-- Taking the vote of one output changes nothing but votes. -/
theorem takeVote_ok {voterScript : List UInt8}
    {st st' : ConnectState × Map UInt256 Int} {out : CTxOut}
    (h : takeVote ctx i voterScript st out = .ok st') :
    ∃ lists recorded votes, st'.1 = st.1.withVotes lists recorded votes := by
  have hSelf : ∃ lists recorded votes, st.1 = st.1.withVotes lists recorded votes :=
    ⟨st.1.view.votes, st.1.recorded, st.1.votes, rfl⟩
  unfold takeVote at h
  obtain ⟨vote, -, h⟩ := bind_eq_ok.mp h
  cases vote with
  | none =>
    cases h
    exact hSelf
  | some vote =>
    dsimp only at h
    -- every branch returns a state of the wanted form
    repeat' split at h
    all_goals
      cases h
      first
        | exact hSelf
        | exact ⟨_, _, _, rfl⟩

/-- The votes of a transaction change nothing else. -/
theorem takeVotes_ok (h : takeVotes ctx i tx st = .ok st') :
    ∃ lists recorded votes, st' = st.withVotes lists recorded votes := by
  unfold takeVotes at h
  dsimp only at h
  split at h
  case isFalse =>
    cases h
    exact ⟨st.view.votes, st.recorded, st.votes, rfl⟩
  case isTrue =>
    obtain ⟨voterScript, -, h⟩ := bind_eq_ok.mp h
    obtain ⟨⟨s, counts⟩, hFold, h⟩ := bind_eq_ok.mp h
    cases h
    refine foldlM_except_invariant
      (fun _ (s : ConnectState × Map UInt256 Int) =>
        ∃ lists recorded votes, s.1 = st.withVotes lists recorded votes)
      tx.vout ⟨st.view.votes, st.recorded, st.votes, rfl⟩ ?_ hFold
    intro done out rest s s' _ ⟨lists, recorded, votes, hs⟩ hStep
    obtain ⟨lists', recorded', votes', hs'⟩ := takeVote_ok hStep
    exact ⟨lists', recorded', votes', by rw [hs', hs]; rfl⟩

/-! ## Checks and values -/

theorem checkDaoTx_ok (h : checkDaoTx ctx tx st = .ok st') : st' = st := by
  unfold checkDaoTx at h
  repeat' split at h
  all_goals
    first
      | exact (ensure_ok.mp h).2
      | exact (Except.ok.inj h).symm

/-- The fund's share of a coinstake. -/
def contributionShare (env : Env) (pprev : Chain) (view : CStateView) (nHeight : Nat) : Int :=
  if isCommunityFundAccumulationEnabled env pprev then
    contributionDue env pprev view * contributionMultiplier env pprev view nHeight
  else 0

theorem checkCoinStake_ok (h : checkCoinStake ctx tx st = .ok st') :
    st' = { st with nStakeReward := tx.getValueOut - st.view.getValueIn tx -
      contributionShare ctx.node.toEnv ctx.pprev st.view ctx.pindex.nHeight } := by
  unfold checkCoinStake at h
  unfold contributionShare
  dsimp only at h
  split at h
  case isTrue hAcc =>
    rw [if_pos hAcc]
    exact (ensure_ok.mp h).2
  case isFalse hAcc =>
    rw [if_neg hAcc, Int.sub_zero]
    exact (Except.ok.inj h).symm

/-- **Values.** A coinbase changes nothing; a coinstake sets the stake reward; any other
transaction pays a fee that is not negative. -/
theorem checkValues_ok (h : checkValues ctx tx st = .ok st') : (tx.isCoinBase = true ∧ st' = st) ∨
    (tx.isCoinBase = false ∧ tx.isCoinStake = true ∧
      st' = { st with nStakeReward := tx.getValueOut - st.view.getValueIn tx -
        contributionShare ctx.node.toEnv ctx.pprev st.view ctx.pindex.nHeight }) ∨
    (tx.isCoinBase = false ∧ tx.isCoinStake = false ∧ tx.getValueOut ≤ st.view.getValueIn tx ∧
      st' = { st with nFees := st.nFees + (st.view.getValueIn tx - tx.getValueOut) }) := by
  unfold checkValues at h
  split at h
  case isTrue hCb => exact .inl ⟨hCb, (ensure_ok.mp h).2⟩
  case isFalse hCb =>
    rw [not_eq_true] at hCb
    obtain ⟨-, h⟩ := ensure_bind.mp h
    obtain ⟨st2, h2, h⟩ := bind_eq_ok.mp h
    obtain ⟨hInputs, rfl⟩ := ensure_ok.mp h
    unfold feeOrReward at h2
    split at h2
    case isTrue hCs => exact .inr (.inl ⟨hCb, hCs, checkCoinStake_ok h2⟩)
    case isFalse hCs =>
      rw [not_eq_true] at hCs
      cases h2
      refine .inr (.inr ⟨hCb, hCs, ?_, rfl⟩)
      simp only [checkTxInputs, hCb, hCs, Bool.false_or, Bool.and_eq_true,
        decide_eq_true_eq] at hInputs
      exact hInputs.2.1

theorem checkValues_kept (h : checkValues ctx tx st = .ok st') : st'.view = st.view ∧
    st'.votes = st.votes ∧ st'.fund = st.fund ∧ st'.vtxundo = st.vtxundo := by
  rcases checkValues_ok h with ⟨-, rfl⟩ | ⟨-, -, rfl⟩ | ⟨-, -, -, rfl⟩ <;> exact ⟨rfl, rfl, rfl, rfl⟩

/-! ## Objects and coins -/

/-- Adding an answer touches answers and their parents only. -/
theorem addConsultationAnswer_frame (view : CStateView) (a : CConsultationAnswer) :
    ∃ consultations answers, view.addConsultationAnswer a =
      { view with consultations := consultations, answers := answers } := by
  unfold CStateView.addConsultationAnswer
  split
  · exact ⟨view.consultations, view.answers, rfl⟩
  · exact ⟨_, _, rfl⟩

theorem addConsultationWithAnswers_frame (view : CStateView) (c : CConsultation)
    (as : List CConsultationAnswer) :
    ∃ consultations answers, view.addConsultationWithAnswers c as =
      { view with consultations := consultations, answers := answers } := by
  have hAdd : ∃ consultations answers, view.addConsultation c =
      { view with consultations := consultations, answers := answers } := by
    unfold CStateView.addConsultation
    split
    · exact ⟨view.consultations, view.answers, rfl⟩
    · exact ⟨_, view.answers, rfl⟩
  unfold CStateView.addConsultationWithAnswers
  split
  · exact ⟨view.consultations, view.answers, rfl⟩
  · split
    · exact hAdd
    · refine foldl_invariant
        (fun _ v => ∃ consultations answers, v =
          { view with consultations := consultations, answers := answers })
        as hAdd ?_
      rintro done a rest v - ⟨consultations, answers, rfl⟩
      obtain ⟨consultations', answers', h⟩ := addConsultationAnswer_frame
        { view with consultations := consultations, answers := answers } a
      exact ⟨consultations', answers', h⟩

/-- What a governance transaction adds to the view. -/
inductive Created (ctx : ConnectContext) (tx : CTransaction) (nProposalFee : Int)
    (view : CStateView) : CStateView → Prop
  | nothing : Created ctx tx nProposalFee view view
  | proposal {p : CProposal} (hTx : tx.nVersion = CTransaction.PROPOSAL_VERSION)
      (hTo : txToProposal ctx.node tx ctx.block.hash nProposalFee = some p) :
      Created ctx tx nProposalFee view (view.addProposal p)
  | paymentRequest {r : CPaymentRequest} (hTx : tx.nVersion = CTransaction.PAYMENT_REQUEST_VERSION)
      (hValid : isValidPaymentRequest ctx.node view tx ctx.mask.nPaymentRequestMask = some true)
      (hTo : txToPaymentRequest ctx.node tx ctx.block.hash = some r)
      (hProposal : (view.getProposal r.proposalhash).any
        (·.getLastState ctx.node.mapBlockIndex == .accepted) = true) :
      Created ctx tx nProposalFee view (view.addPaymentRequest r)
  | consultation {c : CConsultation} {answers : List CConsultationAnswer}
      (hTx : tx.nVersion = CTransaction.CONSULTATION_VERSION)
      (hValid : isValidConsultation ctx.node ctx.pprev view tx ctx.mask.nConsultationMask = true)
      (hTo : txToConsultation ctx.node ctx.pprev tx ctx.block.hash = some (c, answers)) :
      Created ctx tx nProposalFee view (view.addConsultationWithAnswers c answers)
  | answer {a : CConsultationAnswer} (hTx : tx.nVersion = CTransaction.ANSWER_VERSION)
      (hValid : isValidConsultationAnswer ctx.node ctx.pprev view tx = true)
      (hTo : txToConsultationAnswer ctx.node tx ctx.block.hash = some a)
      (hParent : (view.getConsultation a.parent).any (·.canHaveNewAnswers ctx.node.toEnv) = true) :
      Created ctx tx nProposalFee view (view.addConsultationAnswer a)

variable {nProposalFee : Int} {view' other : CStateView} {nHeight : Nat}
  {r : CStateView × List CTxInUndo} {pindex : CBlockIndex} {pprev : Chain} {fund : Fund}
  {recorded : RecordedVotes}

/-- `createObject` adds one object, or nothing. -/
theorem createObject_created (h : createObject ctx tx nProposalFee view = some view') :
    Created ctx tx nProposalFee view view' := by
  unfold createObject at h
  -- version by version, in the order of the code
  split at h
  case isTrue hVersion =>
    simp only [and_eq_true, beq_iff_eq] at hVersion
    simp only [bind_eq_bind, bind_eq_some_iff] at h
    obtain ⟨ok, -, h⟩ := h
    split at h
    · simp only [bind_eq_some_iff] at h
      obtain ⟨proposal, hTo, h⟩ := h
      cases h
      exact .proposal hVersion.2 hTo
    · cases h
      exact .nothing
  case isFalse =>
    split at h
    case isTrue hVersion =>
      simp only [and_eq_true, beq_iff_eq] at hVersion
      simp only [bind_eq_bind, bind_eq_some_iff] at h
      obtain ⟨ok, hValid, h⟩ := h
      split at h
      case isTrue hOk =>
        rw [hOk] at hValid
        simp only [bind_eq_some_iff] at h
        obtain ⟨prequest, hTo, h⟩ := h
        split at h
        case isTrue hProposal =>
          cases h
          exact .paymentRequest hVersion.2 hValid hTo hProposal
        case isFalse =>
          cases h
          exact .nothing
      case isFalse =>
        cases h
        exact .nothing
    case isFalse =>
      split at h
      case isTrue hVersion =>
        simp only [and_eq_true, beq_iff_eq] at hVersion
        split at h
        case isTrue hValid =>
          simp only [bind_eq_bind, bind_eq_some_iff] at h
          obtain ⟨⟨c, as⟩, hTo, h⟩ := h
          cases h
          exact .consultation hVersion.2 hValid hTo
        case isFalse =>
          cases h
          exact .nothing
      case isFalse =>
        split at h
        case isTrue hVersion =>
          simp only [and_eq_true, beq_iff_eq] at hVersion
          split at h
          case isTrue hValid =>
            simp only [bind_eq_bind, bind_eq_some_iff] at h
            obtain ⟨a, hTo, h⟩ := h
            split at h
            case isTrue hParent =>
              cases h
              rw [and_eq_true] at hParent
              exact .answer hVersion.2 hValid hTo hParent.1
            case isFalse =>
              cases h
              exact .nothing
          case isFalse =>
            cases h
            exact .nothing
        case isFalse =>
          cases h
          exact .nothing

/-- Creating an object leaves the coins, the voters' lists and the parameters alone. -/
theorem Created.frame (h : Created ctx tx nProposalFee view view') :
    ∃ proposals paymentRequests consultations answers, view' = { view with
        proposals := proposals, paymentRequests := paymentRequests,
        consultations := consultations, answers := answers } := by
  have hSelf : ∃ proposals paymentRequests consultations answers, view = { view with
        proposals := proposals, paymentRequests := paymentRequests,
        consultations := consultations, answers := answers } :=
    ⟨view.proposals, view.paymentRequests, view.consultations, view.answers, rfl⟩
  cases h with
  | nothing => exact hSelf
  | proposal =>
    unfold CStateView.addProposal
    split
    · exact hSelf
    · exact ⟨_, view.paymentRequests, view.consultations, view.answers, rfl⟩
  | paymentRequest =>
    unfold CStateView.addPaymentRequest
    split
    · exact hSelf
    · exact ⟨view.proposals, _, view.consultations, view.answers, rfl⟩
  | consultation =>
    obtain ⟨consultations, answers, hAdd⟩ := addConsultationWithAnswers_frame view _ _
    exact ⟨view.proposals, view.paymentRequests, consultations, answers, hAdd⟩
  | answer =>
    obtain ⟨consultations, answers, hAdd⟩ := addConsultationAnswer_frame view _
    exact ⟨view.proposals, view.paymentRequests, consultations, answers, hAdd⟩

/-- Spending one input touches the coins only, and reads nothing else. -/
theorem spendInput_frame {st st' : CStateView × List CTxInUndo} {txin : CTxIn}
    (h : spendInput st txin = some st') :
    st'.1 = { st.1 with coins := st'.1.coins } := by
  unfold spendInput at h
  split at h
  · cases h
    rfl
  · cases h

theorem updateCoins_frame (h : updateCoins view tx nHeight = some r) :
    r.1 = { view with coins := r.1.coins } := by
  unfold updateCoins at h
  rw [map_eq_some_iff] at h
  obtain ⟨st, hSt, rfl⟩ := h
  suffices hFold : st.1 = { view with coins := st.1.coins } by
    rw [hFold]
    rfl
  split at hSt
  · cases hSt
    rfl
  · refine foldlM_option_invariant
      (fun _ (s : CStateView × List CTxInUndo) => s.1 = { view with coins := s.1.coins })
      tx.vin (b := (view, [])) (r := st) rfl ?_ hSt
    intro done txin rest s s' _ hs hStep
    rw [spendInput_frame hStep, hs]

/-- The coins after a transaction and its undo data depend on the coins alone. -/
theorem updateCoins_withCoins (view other : CStateView) (tx : CTransaction) (nHeight : Nat) :
    updateCoins { other with coins := view.coins } tx nHeight =
      (updateCoins view tx nHeight).map fun r => ({ other with coins := r.1.coins }, r.2) := by
  have hSpend : ∀ (st : CStateView × List CTxInUndo) (txin : CTxIn),
      (spendInput st txin).map (fun r => ({ other with coins := r.1.coins }, r.2)) =
        spendInput ({ other with coins := st.1.coins }, st.2) txin := by
    intro st txin
    unfold spendInput CStateView.outputFor
    dsimp only
    split <;> rfl
  unfold updateCoins
  by_cases hCb : tx.isCoinBase = true
  · rw [if_pos hCb, if_pos hCb]
    rfl
  · rw [if_neg hCb, if_neg hCb]
    have hFold := foldlM_option_map (f := spendInput)
      (fun r : CStateView × List CTxInUndo =>
        (({ other with coins := r.1.coins }, r.2) : CStateView × List CTxInUndo))
      hSpend tx.vin (view, [])
    rw [← hFold]
    cases tx.vin.foldlM spendInput (view, []) <;> rfl

theorem updateCoins_of_coins (hCoins : other.coins = view.coins)
    (h : updateCoins view tx nHeight = some r) :
    updateCoins other tx nHeight = some ({ other with coins := r.1.coins }, r.2) := by
  have hWith := updateCoins_withCoins view other tx nHeight
  rw [← hCoins, h] at hWith
  exact hWith

/-- **One turn.** The stages of `connectTx` when it succeeds. -/
theorem connectTx_ok (h : connectTx ctx st (tx, i) = .ok st') : ∃ st1 st2 view1 view2 undo,
      takeVotes ctx i tx st = .ok st1 ∧ checkDaoTx ctx tx st1 = .ok st1 ∧
      checkValues ctx tx st1 = .ok st2 ∧
      createObject ctx tx tx.getValueOutCFund st2.view = some view1 ∧
      updateCoins view1 tx ctx.pindex.nHeight = some (view2, undo) ∧
      st' = { st2 with
        view := view2, fund := st2.fund.contribute tx,
        vtxundo := if i == 0 then st2.vtxundo else st2.vtxundo ++ [undo] } := by
  unfold connectTx at h
  obtain ⟨st1, h1, h⟩ := bind_eq_ok.mp h
  rw [bind_eq_ok] at h
  obtain ⟨st2, h2, h⟩ := h
  obtain rfl := checkDaoTx_ok h2
  obtain ⟨-, h⟩ := ensure_bind.mp h
  obtain ⟨st3, h3, h⟩ := bind_eq_ok.mp h
  obtain ⟨view1, h4, h⟩ := bind_eq_ok.mp h
  obtain ⟨⟨view2, undo⟩, h5, h⟩ := bind_eq_ok.mp h
  exact ⟨_, st3, view1, view2, undo, h1, h2, h3, require_ok.mp h4,
    require_ok.mp h5, (Except.ok.inj h).symm⟩

/-- `CheckTxInputs` reads the coins alone. -/
theorem checkTxInputs_congr (h : view.coins = other.coins)
    (params : Params) (fTestnet : Bool) (nSpendHeight : Nat) (tx : CTransaction) :
    checkTxInputs params fTestnet view nSpendHeight tx =
      checkTxInputs params fTestnet other nSpendHeight tx := by
  have hOut : ∀ prevout, view.outputFor prevout = other.outputFor prevout := by
    intro prevout
    simp only [CStateView.outputFor, h]
  have hLoop : ∀ vin nValueIn, inputsInRange params fTestnet view nSpendHeight vin nValueIn =
      inputsInRange params fTestnet other nSpendHeight vin nValueIn := by
    intro vin
    induction vin with
    | nil => exact fun _ => rfl
    | cons txin rest ih =>
      intro nValueIn
      simp only [inputsInRange, h, hOut, ih]
  have hHave : view.haveInputs tx = other.haveInputs tx := by
    simp only [CStateView.haveInputs, hOut]
  have hValue : view.getValueIn tx = other.getValueIn tx := by
    simp only [CStateView.getValueIn, hOut]
  unfold checkTxInputs
  rw [hHave, hLoop, hValue]

/-- The inputs a transaction may spend were checked against the coins of the view. -/
theorem checkValues_inputs (h : checkValues ctx tx st = .ok st') (hCb : tx.isCoinBase = false) :
    checkTxInputs ctx.node.params ctx.node.fTestnet st.view ctx.pindex.nHeight tx = true := by
  unfold checkValues at h
  rw [if_neg (by rw [hCb]; exact false_ne_true)] at h
  obtain ⟨-, h⟩ := ensure_bind.mp h
  obtain ⟨st2, h2, h⟩ := bind_eq_ok.mp h
  obtain ⟨hInputs, -⟩ := ensure_ok.mp h
  have hView : st2.view = st.view := by
    unfold feeOrReward at h2
    split at h2
    case isTrue => rw [checkCoinStake_ok h2]
    case isFalse =>
      cases h2
      rfl
  rw [← hView]
  exact hInputs

/-- One turn as it acts on the coins: a check of the inputs, then `UpdateCoins`. -/
theorem connectTx_coins (h : connectTx ctx st (tx, i) = .ok st') : (tx.isCoinBase = false →
      checkTxInputs ctx.node.params ctx.node.fTestnet st.view ctx.pindex.nHeight tx = true) ∧
    ∃ undo, updateCoins st.view tx ctx.pindex.nHeight =
        some ({ st.view with coins := st'.view.coins }, undo) ∧
      st'.vtxundo = if i == 0 then st.vtxundo else st.vtxundo ++ [undo] := by
  obtain ⟨st1, st2, view1, view2, undo, hVotes, -, hValues, hObject, hCoins, rfl⟩ :=
    connectTx_ok h
  obtain ⟨lists, recorded, votes, rfl⟩ := takeVotes_ok hVotes
  obtain ⟨hView, -, -, hUndo⟩ := checkValues_kept hValues
  obtain ⟨proposals, paymentRequests, consultations, answers, hView1⟩ :=
    (createObject_created hObject).frame
  have hSame : st.view.coins = view1.coins := by
    rw [hView1, hView]
    rfl
  have hVoted : st.view.coins = (st.withVotes lists recorded votes).view.coins := rfl
  refine ⟨fun hCb => ?_, undo, updateCoins_of_coins hSame hCoins, by rw [hUndo]; rfl⟩
  rw [checkTxInputs_congr hVoted]
  exact checkValues_inputs hValues hCb

/-! ## The block -/

theorem outputsInRange_nonneg {fUser : Bool} {vout : List CTxOut} {total : Int}
    (h : outputsInRange fUser vout total = true) : ∀ out ∈ vout, 0 ≤ out.nValue := by
  induction vout generalizing total with
  | nil => simp
  | cons out rest ih =>
    simp only [outputsInRange, and_eq_true, decide_eq_true_eq] at h
    intro o ho
    rcases mem_cons.mp ho with rfl | hRest
    · exact h.1.1.1.2
    · exact ih h.2 o hRest

theorem checkTransaction_vout_nonneg (h : checkTransaction tx = true) :
    ∀ out ∈ tx.vout, 0 ≤ out.nValue := by
  simp only [checkTransaction, and_eq_true] at h
  exact outputsInRange_nonneg h.1.1.2

theorem checkTransaction_vin (h : checkTransaction tx = true) : tx.vin ≠ [] := by
  simp only [checkTransaction, and_eq_true, not_eq_true'] at h
  intro hNil
  rw [hNil] at h
  cases h.1.1.1.1

/-- The coinbase is the only one, and every transaction passed `CheckTransaction`. -/
theorem checkBlock_vtx (h : checkBlock node block = true) :
    ∃ coinbase rest, block.vtx = coinbase :: rest ∧ coinbase.isCoinBase = true ∧
      checkTransaction coinbase = true ∧
      (∀ tx ∈ rest, checkTransaction tx = true ∧ tx.isCoinBase = false) ∧
      (block.isProofOfStake = true → ∀ tx ∈ rest.drop 1, tx.isCoinStake = false) := by
  unfold checkBlock at h
  split at h
  case h_1 => cases h
  case h_2 coinbase rest hVtx =>
    simp only [and_eq_true, or_eq_true, not_eq_true', List.all_eq_true,
      hVtx, List.mem_cons, forall_eq_or_imp] at h
    obtain ⟨⟨⟨⟨-, hCb⟩, hNoCb⟩, hStake⟩, hTx, hTxs⟩ := h
    refine ⟨coinbase, rest, hVtx, hCb, hTx, fun tx ht => ⟨hTxs tx ht, hNoCb tx ht⟩, ?_⟩
    intro hPos
    rcases hStake with hNot | hStake
    · rw [hPos] at hNot
      cases hNot
    · exact hStake

theorem checkBlock_transaction (h : checkBlock node block = true)
    (hTx : tx ∈ block.vtx) : checkTransaction tx = true := by
  obtain ⟨coinbase, rest, hVtx, -, hCoinbase, hOthers, -⟩ := checkBlock_vtx h
  rw [hVtx] at hTx
  rcases mem_cons.mp hTx with rfl | hRest
  · exact hCoinbase
  · exact (hOthers tx hRest).1

/-- The state `ConnectBlock` enters its loop with. -/
def ConnectState.initial (fund : Fund) (recorded : RecordedVotes) (view : CStateView) :
    ConnectState := ⟨view, fund, recorded, ∅, 0, 0, []⟩

/-- What a block other than the genesis block passed when `ConnectBlock` accepted it: the loop
over the transactions ends in `st`, the payout loop in `cb`. -/
structure ConnectRun (node : Node) (block : CBlock) (pindex : CBlockIndex) (pprev : Chain)
    (fund : Fund) (recorded : RecordedVotes) (view : CStateView) (r : Connected) where
  nCoinAge : Nat
  stakerScript : List UInt8
  coinbase : CTransaction
  st : ConnectState
  cb : CoinbaseState
  proof : block.isProofOfStake = true →
    (block.vtx[1]?).any (checkProofOfStake node pprev view) = true
  coinAge : block.isProofOfStake = true → (block.vtx[1]?).bind (node.getCoinAge view) = some nCoinAge
  staker : stakerScriptOf node block = some stakerScript
  loop : block.vtx.zipIdx.foldlM (connectTx (connectContext node block pindex pprev stakerScript))
    (.initial fund recorded view) = .ok st
  head : block.vtx.head? = some coinbase
  payout : checkCoinbase node pindex pprev (nPOWBlockReward block pindex.nHeight st.nFees)
    coinbase st.view = some cb
  reward : block.isProofOfStake = true → st.nStakeReward ≤
    getProofOfStakeReward node.toEnv pindex.nHeight nCoinAge st.nFees pprev cb.view
  result : r = ⟨cb.view, st.fund, recordStakerVotes
    (connectContext node block pindex pprev stakerScript) st.view st.recorded, st.vtxundo,
    cb.matched⟩

/-- **An accepted block** is the genesis block, or every stage of `ConnectBlock` succeeded. -/
theorem connectBlock_ok {r : Connected}
    (h : connectBlock node block pindex pprev fund recorded view = .ok r) :
    checkBlock node block = true ∧
    ((block.hash = node.params.genesis.hash ∧ r = ⟨view, fund, recorded, [], []⟩) ∨
      (block.hash ≠ node.params.genesis.hash ∧
        Nonempty (ConnectRun node block pindex pprev fund recorded view r))) := by
  dsimp only [connectBlock] at h
  obtain ⟨hCheck, h⟩ := ensure_bind.mp h
  refine ⟨hCheck, ?_⟩
  split at h
  case isTrue hGenesis => exact .inl ⟨beq_iff_eq.mp hGenesis, (Except.ok.inj h).symm⟩
  case isFalse hGenesis =>
    refine .inr ⟨fun hEq => hGenesis (beq_iff_eq.mpr hEq), ?_⟩
    -- the stages in the order of `ConnectBlock`
    obtain ⟨hProof, h⟩ := ensure_bind.mp h
    obtain ⟨-, h⟩ := ensure_bind.mp h
    obtain ⟨nCoinAge, hAge, h⟩ := bind_eq_ok.mp h
    obtain ⟨stakerScript, hStaker, h⟩ := bind_eq_ok.mp h
    obtain ⟨st, hLoop, h⟩ := bind_eq_ok.mp h
    obtain ⟨coinbase, hHead, h⟩ := bind_eq_ok.mp h
    obtain ⟨cb, hPayout, h⟩ := bind_eq_ok.mp h
    obtain ⟨hReward, h⟩ := ensure_bind.mp h
    refine ⟨{
      nCoinAge := nCoinAge, stakerScript := stakerScript, coinbase := coinbase, st := st, cb := cb
      proof := ?_
      coinAge := ?_
      staker := require_ok.mp hStaker
      loop := hLoop
      head := require_ok.mp hHead
      payout := require_ok.mp hPayout
      reward := ?_
      result := (Except.ok.inj h).symm }⟩
    · intro hPos
      rw [and_eq_true, hPos] at hProof
      exact hProof.2
    · intro hPos
      have hAge := require_ok.mp hAge
      rwa [if_pos hPos] at hAge
    · intro hPos
      rw [hPos] at hReward
      simpa using hReward

/-- **The coins over the loop.** What the check of the inputs and `UpdateCoins` carry from one
transaction to the next holds of the coins after the loop. -/
theorem ConnectRun.coins_invariant {r : Connected}
    (run : ConnectRun node block pindex pprev fund recorded view r)
    (P : List CTransaction → CStateView → Prop) (hInit : P [] view)
    (hStep : ∀ done tx rest v v' undo, block.vtx = done ++ tx :: rest → P done v →
      (tx.isCoinBase = false → checkTxInputs node.params node.fTestnet v pindex.nHeight tx = true) →
      updateCoins v tx pindex.nHeight = some (v', undo) → P (done ++ [tx]) v') :
    ∃ v, v.coins = run.st.view.coins ∧ P block.vtx v := by
  have hLoop := foldlM_except_invariant
    (fun done (st : ConnectState) => ∃ v, v.coins = st.view.coins ∧ P (done.map Prod.fst) v)
    block.vtx.zipIdx (b := .initial fund recorded view) ⟨view, rfl, hInit⟩ ?_ run.loop
  · rwa [zipIdx_map_fst] at hLoop
  · rintro done ⟨tx, i⟩ rest st st' hDone ⟨v, hv, hP⟩ hTurn
    obtain ⟨hCheck, undo, hUpdate, -⟩ := connectTx_coins hTurn
    have hVtx := congrArg (List.map Prod.fst) hDone
    rw [zipIdx_map_fst, map_append] at hVtx
    refine ⟨{ v with coins := st'.view.coins }, rfl, ?_⟩
    rw [map_append]
    refine hStep _ tx _ v _ undo hVtx hP (fun hCb => ?_) (updateCoins_of_coins hv hUpdate)
    rw [checkTxInputs_congr hv]
    exact hCheck hCb

end Electrum
