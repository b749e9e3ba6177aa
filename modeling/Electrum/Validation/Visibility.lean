import Electrum.Dao.Accepted
import Electrum.Dao.ViewCache
import Electrum.Validation.Grow

/-!
# New objects are visible

An object is absent when it is null, and null is a matter of some of its fields, which the metadata
of a transaction can set.  `ConnectBlock` makes an object of every accepted governance transaction
and adds it to its view: it should be found there afterwards, by itself and in the listings, and
also after the caches are flushed.

A proposal has an amount, a consultation and an answer have the hash of a transaction.  A payment
request is validated for an amount that is not negative and an identifier that is a string, and with
the amount 0 and the empty identifier it is null.

Main results:
* `Adds.createObject` — what `ConnectBlock` adds for an accepted transaction
* `accepted_visible_iff` — which accepted objects become visible
-/

namespace Electrum

open CStateView Option

/-! ## Objects -/

/-- What a governance transaction creates; a consultation comes with its first answers. -/
inductive NewObject
  | proposal (p : CProposal)
  | paymentRequest (r : CPaymentRequest)
  | consultation (c : CConsultation) (answers : List CConsultationAnswer)
  | answer (a : CConsultationAnswer)

/-- A payment request of nothing, without an identifier. -/
def NewObject.Blank : NewObject → Prop
  | .paymentRequest r => r.nAmount = 0 ∧ r.strDZeel = ""
  | _ => False

namespace CStateView

/-- `AddProposal` and so on. -/
def add (view : CStateView) : NewObject → CStateView
  | .proposal p => view.addProposal p
  | .paymentRequest r => view.addPaymentRequest r
  | .consultation c answers => view.addConsultationWithAnswers c answers
  | .answer a => view.addConsultationAnswer a

/-- `HaveProposal` and so on, for the object's hash. -/
def has (view : CStateView) : NewObject → Bool
  | .proposal p => (view.getProposal p.hash).isSome
  | .paymentRequest r => (view.getPaymentRequest r.hash).isSome
  | .consultation c _ => (view.getConsultation c.hash).isSome
  | .answer a => (view.getConsultationAnswer a.hash).isSome

end CStateView

/-- The top cache of a stack finds an object under its hash, and lists it. -/
def DaoStack.Shown (s : DaoStack) : NewObject → Prop
  | .proposal p => proposalKind.Visible s.proposals p.hash
  | .paymentRequest r => paymentRequestKind.Visible s.paymentRequests r.hash
  | .consultation c _ => consultationKind.Visible s.consultations c.hash
  | .answer a => answerKind.Visible s.answers a.hash

/-- The transaction is accepted by its validator, and `ConnectBlock` hands the object that it makes
of it to `Add...`. -/
inductive Adds (ctx : ConnectContext) (tx : CTransaction) (view : CStateView) : NewObject → Prop
  | proposal {p : CProposal} (hActive : ctx.fCFund = true)
      (hTx : tx.nVersion = CTransaction.PROPOSAL_VERSION)
      (hValid : isValidProposal ctx.node view tx ctx.mask.nProposalMask = some true)
      (hTo : txToProposal ctx.node tx ctx.block.hash tx.getValueOutCFund = some p) :
      Adds ctx tx view (.proposal p)
  | paymentRequest {r : CPaymentRequest} (hActive : ctx.fCFund = true)
      (hTx : tx.nVersion = CTransaction.PAYMENT_REQUEST_VERSION)
      (hValid : isValidPaymentRequest ctx.node view tx ctx.mask.nPaymentRequestMask = some true)
      (hTo : txToPaymentRequest ctx.node tx ctx.block.hash = some r)
      (hProposal : (view.getProposal r.proposalhash).any
        (·.getLastState ctx.node.mapBlockIndex == .accepted) = true) :
      Adds ctx tx view (.paymentRequest r)
  | consultation {c : CConsultation} {answers : List CConsultationAnswer}
      (hActive : ctx.fDAOConsultations = true)
      (hTx : tx.nVersion = CTransaction.CONSULTATION_VERSION)
      (hValid : isValidConsultation ctx.node ctx.pprev view tx ctx.mask.nConsultationMask = true)
      (hTo : txToConsultation ctx.node ctx.pprev tx ctx.block.hash = some (c, answers)) :
      Adds ctx tx view (.consultation c answers)
  | answer {a : CConsultationAnswer} (hActive : ctx.fDAOConsultations = true)
      (hTx : tx.nVersion = CTransaction.ANSWER_VERSION)
      (hValid : isValidConsultationAnswer ctx.node ctx.pprev view tx = true)
      (hTo : txToConsultationAnswer ctx.node tx ctx.block.hash = some a)
      (hParent : (view.getConsultation a.parent).any (·.canHaveNewAnswers ctx.node.toEnv) = true) :
      Adds ctx tx view (.answer a)

variable {κ α : Type} [Ord κ] [Std.TransOrd κ] {m : Map κ α} {k : κ} {node : Node}
  {tx : CTransaction} {block : UInt256}

theorem Map.not_contains (h : (m[k]?).isSome = false) : ¬m.contains k = true := by
  rw [Std.ExtTreeMap.contains_eq_isSome_getElem?, h]
  exact Bool.false_ne_true

namespace Adds

variable {ctx : ConnectContext} {tx : CTransaction} {view : CStateView} {o : NewObject}

/-- **What `ConnectBlock` adds.** -/
theorem createObject (h : Adds ctx tx view o) (hFresh : view.has o = false) :
    createObject ctx tx tx.getValueOutCFund view = some (view.add o) := by
  cases h with
  | proposal hActive hTx hValid hTo =>
    simp [Electrum.createObject, hActive, hTx, hValid, hTo, add]
  | paymentRequest hActive hTx hValid hTo hProposal =>
    simp [Electrum.createObject, hActive, hTx, hValid, hTo, hProposal, add,
      CTransaction.PROPOSAL_VERSION, CTransaction.PAYMENT_REQUEST_VERSION]
  | consultation hActive hTx hValid hTo =>
    simp [Electrum.createObject, hActive, hTx, hValid, hTo, add,
      CTransaction.PROPOSAL_VERSION, CTransaction.PAYMENT_REQUEST_VERSION,
      CTransaction.CONSULTATION_VERSION]
  | @answer a hActive hTx hValid hTo hParent =>
    have hNew := Map.not_contains hFresh
    simp [Electrum.createObject, hActive, hTx, hValid, hTo, hParent, hNew, add,
      CTransaction.PROPOSAL_VERSION, CTransaction.PAYMENT_REQUEST_VERSION,
      CTransaction.CONSULTATION_VERSION, CTransaction.ANSWER_VERSION]

end Adds

/-! ## Objects that stay -/

/-- There is an object under the hash that is not null, and not in the form in which it is stored
either. -/
def CStateView.Keeps (view : CStateView) : NewObject → Prop
  | .proposal p => ∃ q, view.getProposal p.hash = some q ∧ q.stored.isNull = false
  | .paymentRequest r => ∃ q, view.getPaymentRequest r.hash = some q ∧ q.stored.isNull = false
  | .consultation c _ => ∃ q, view.getConsultation c.hash = some q ∧ q.hash ≠ 0
  | .answer a => ∃ q, view.getConsultationAnswer a.hash = some q ∧ q.stored.isNull = false

/-- An object whose stored form is not null is found and listed, before and after a flush. -/
theorem CacheKind.Simulates.visible_stored
    [Std.LawfulEqOrd κ] [DecidableEq κ] {isNull : α → Bool} {null : α} {stored : α → α}
    {hNull : isNull null = true} {s : CacheStack κ α α}
    (hs : (daoKind isNull null stored hNull).Simulates s m) {a : α} (ha : m[k]? = some a)
    (hStored : isNull (stored a) = false) :
    (daoKind isNull null stored hNull).Visible s k ∧ ∀ depth,
      (daoKind isNull null stored hNull).Visible
        (s.step (daoKind isNull null stored hNull) (.flush depth)) k := by
  refine ⟨(hs.visible_iff k).mpr (by rw [ha]; rfl), fun depth => ?_⟩
  exact hs.visible_flush (fun _ => rfl) ha ⟨stored a, rfl, hStored⟩ depth

namespace CStateView.Keeps

variable {view view' : CStateView} {o : NewObject}

theorem has (h : view.Keeps o) : view.has o = true := by
  cases o with
  | proposal | paymentRequest | consultation | answer =>
    obtain ⟨q, hq, -⟩ := h
    simp [has, hq]

/-- Other transactions of the block leave it. -/
theorem grows {block : UInt256} (h : view.Keeps o) (hGrows : Grows block view view') :
    view'.Keeps o := by
  cases o with
  | proposal p =>
    obtain ⟨q, hq, hNull⟩ := h
    exact ⟨q, hGrows.proposals p.hash q hq, hNull⟩
  | paymentRequest r =>
    obtain ⟨q, hq, hNull⟩ := h
    exact ⟨q, hGrows.requests r.hash q hq, hNull⟩
  | consultation c answers =>
    obtain ⟨q, hq, hHash⟩ := h
    obtain ⟨vAnswers, hq'⟩ := hGrows.consultations c.hash q hq
    exact ⟨_, hq', hHash⟩
  | answer a =>
    obtain ⟨q, hq, hNull⟩ := h
    exact ⟨q, hGrows.answers a.hash q hq, hNull⟩

/-- A payment request that is paid has a state. -/
theorem paysOut {node : Node} {pindex : CBlockIndex} {pprev : Chain} {listed : List UInt256}
    (h : view.Keeps o) (hPays : PaysOut node pindex pprev listed view view') : view'.Keeps o := by
  cases o with
  | paymentRequest r =>
    obtain ⟨q, hq, hNull⟩ := h
    rcases hPays.requests r.hash q hq with hSame | ⟨hPaid, -⟩
    · exact ⟨q, hSame, hNull⟩
    · refine ⟨_, hPaid, ?_⟩
      simp [CPaymentRequest.isNull, CPaymentRequest.stored, CPaymentRequest.setState,
        StateMap.setState]
  | proposal | consultation | answer =>
    rw [hPays.frame]
    exact h

theorem shown {s : DaoStack} (h : view.Keeps o) (hs : DaoSimulates s view) :
    s.Shown o ∧ ∀ depth, (s.flush depth).Shown o := by
  cases o with
  | proposal =>
    obtain ⟨q, hq, hNull⟩ := h
    exact hs.proposals.visible_stored hq hNull
  | paymentRequest =>
    obtain ⟨q, hq, hNull⟩ := h
    exact hs.paymentRequests.visible_stored hq hNull
  | consultation =>
    obtain ⟨q, hq, hHash⟩ := h
    have hNull : q.stored.isNull = false := CConsultation.notNull_of_hash hHash
    exact hs.consultations.visible_stored hq hNull
  | answer =>
    obtain ⟨q, hq, hNull⟩ := h
    exact hs.answers.visible_stored hq hNull

end CStateView.Keeps

/-! ## One transaction -/

/-- A valid proposal asks for something. -/
theorem txToProposal_valid {view : CStateView} {nMaskVersion : Nat} {fee : Int} {p : CProposal}
    (hValid : isValidProposal node view tx nMaskVersion = some true)
    (hTo : txToProposal node tx block fee = some p) : 0 < p.nAmount := by
  simp only [txToProposal, bind_eq_bind, bind_eq_some_iff] at hTo
  obtain ⟨metadata, hRead, hTo⟩ := hTo
  obtain ⟨nAmount, -, -, -, -, hAmount, -, -, -, -, hPos, -⟩ := isValidProposal_true hValid hRead
  split at hTo
  all_goals
    simp only [bind_eq_some_iff] at hTo
    obtain ⟨nVersion, -, amount, hRead', owner, -, nDeadline, -, text, -, hTo⟩ := hTo
    obtain rfl := some.inj (hAmount.symm.trans hRead')
    split at hTo
    case isTrue => cases hTo
    case isFalse =>
      obtain rfl := some.inj hTo
      exact hPos

namespace Adds

variable {ctx : ConnectContext} {tx : CTransaction} {view : CStateView} {o : NewObject}

/-- **A new object stays.** -/
theorem keeps (h : Adds ctx tx view o) (hFresh : view.has o = false) (hTx : tx.hash ≠ 0)
    (hBlank : ¬o.Blank) : (view.add o).Keeps o := by
  cases h with
  | @proposal p _ _ hValid hTo =>
    have hPos := txToProposal_valid hValid hTo
    have hNull : ∀ q : CProposal, q.nAmount = p.nAmount → q.isNull = false := by
      intro q hq
      have hNe : q.nAmount ≠ 0 := by omega
      simp [CProposal.isNull, hNe]
    refine ⟨p, ?_, hNull p.stored rfl⟩
    have hAbsent := Map.not_contains hFresh
    rw [add, addProposal, if_neg hAbsent, getProposal_set (hNull p rfl), if_pos rfl]
  | @paymentRequest r _ _ _ hTo _ =>
    have hNull : ∀ q : CPaymentRequest, q.nAmount = r.nAmount → q.strDZeel = r.strDZeel →
        q.isNull = false := by
      intro q hAmount hText
      rw [CPaymentRequest.isNull, hAmount, hText]
      have hNot : ¬(r.nAmount = 0 ∧ r.strDZeel = "") := hBlank
      by_cases hZero : r.nAmount = 0
      · have hNe : r.strDZeel ≠ "" := fun hEq => hNot ⟨hZero, hEq⟩
        simp [hNe]
      · simp [hZero]
    refine ⟨r, ?_, hNull r.stored rfl rfl⟩
    have hAbsent := Map.not_contains hFresh
    rw [add, addPaymentRequest, if_neg hAbsent, getPaymentRequest_set (hNull r rfl rfl), if_pos rfl]
  | @consultation c answers _ _ _ hTo =>
    obtain ⟨⟨hHash, hBlock, hState⟩, hAnswers⟩ := txToConsultation_new hTo
    rw [← hHash] at hTx hAnswers
    have hAbsent := Map.not_contains hFresh
    have hAdded : (view.addConsultation c).Keeps (.consultation c answers) := by
      refine ⟨c, ?_, hTx⟩
      rw [addConsultation, if_neg hAbsent,
        getConsultation_set (CConsultation.notNull_of_hash hTx), if_pos rfl]
    exact hAdded.grows (addConsultationWithAnswers_grows hBlock hState hTx hAnswers)
  | @answer a _ _ _ hTo _ =>
    have hNull : ∀ b : CConsultationAnswer, b.txhash = a.txhash → b.isNull = false := by
      intro b hb
      have hNe : b.txhash ≠ 0 := by rwa [hb, txToConsultationAnswer_txhash hTo]
      simp [CConsultationAnswer.isNull, hNe]
    refine ⟨a, ?_, hNull a.stored rfl⟩
    have hAbsent := Map.not_contains hFresh
    rw [add, addConsultationAnswer, if_neg hAbsent,
      getConsultationAnswer_set (hNull a rfl), if_pos rfl]

/-- A blank request is null, and so it is erased where it is written. -/
theorem blank (h : Adds ctx tx view o) (hFresh : view.has o = false) (hBlank : o.Blank) :
    (view.add o).has o = false := by
  cases h with
  | @paymentRequest r _ _ _ hTo _ =>
    obtain ⟨hAmount, hText⟩ : r.nAmount = 0 ∧ r.strDZeel = "" := hBlank
    obtain ⟨-, -, hState, -, hCore⟩ := txToPaymentRequest_new hTo
    have hNull : r.isNull = true := by
      rw [← hCore]
      simp [CPaymentRequest.isNull, CPaymentRequest.core, hAmount, hText, hState]
    show ((view.addPaymentRequest r).getPaymentRequest r.hash).isSome = false
    unfold addPaymentRequest
    split
    · exact hFresh
    · simp [getPaymentRequest, setPaymentRequest, Map.getElem?_setUnless, hNull]
  | proposal | consultation | answer => exact hBlank.elim

end Adds

/-! ## A block -/

/-- A transaction of the block for which `ConnectBlock` adds an object that was not there: the loop
over the transactions before it ends in `before`, and `voted` is the state after the votes of the
transaction were taken. -/
structure AddTurn (node : Node) (block : CBlock) (pindex : CBlockIndex) (pprev : Chain) (fund : Fund)
    (recorded : RecordedVotes) (view : CStateView) (o : NewObject) where
  stakerScript : List UInt8
  done : List (CTransaction × Nat)
  tx : CTransaction
  i : Nat
  rest : List (CTransaction × Nat)
  before : ConnectState
  voted : ConnectState
  ordinary : block.hash ≠ node.params.genesis.hash
  staker : stakerScriptOf node block = some stakerScript
  split : block.vtx.zipIdx = done ++ (tx, i) :: rest
  loop : done.foldlM (connectTx (connectContext node block pindex pprev stakerScript))
    (.initial fund recorded view) = .ok before
  votes : takeVotes (connectContext node block pindex pprev stakerScript) i tx before = .ok voted
  adds : Adds (connectContext node block pindex pprev stakerScript) tx voted.view o
  fresh : voted.view.has o = false

section Block

variable {node : Node} {block : CBlock} {pindex : CBlockIndex} {pprev : Chain} {fund : Fund}
  {recorded : RecordedVotes} {view : CStateView} {r : Connected} {o : NewObject}

/-- The view after the object was added grows until the payouts are made. -/
theorem AddTurn.grows (turn : AddTurn node block pindex pprev fund recorded view o)
    (run : ConnectRun node block pindex pprev fund recorded view r)
    (hHashes : ∀ tx ∈ block.vtx, tx.hash ≠ 0) :
    Grows block.hash (turn.voted.view.add o) run.st.view := by
  have hScript : run.stakerScript = turn.stakerScript :=
    some.inj (run.staker.symm.trans turn.staker)
  have hLoop := run.loop
  rw [hScript, turn.split, List.foldlM_append, Except.bind_eq_ok] at hLoop
  obtain ⟨before, hBefore, hLoop⟩ := hLoop
  obtain rfl := Except.ok.inj (turn.loop.symm.trans hBefore)
  rw [List.foldlM_cons, Except.bind_eq_ok] at hLoop
  obtain ⟨after, hTurn, hRest⟩ := hLoop
  obtain ⟨st1, st2, view1, view2, undo, hVotes, -, hValues, hCreate, hCoins, rfl⟩ :=
    connectTx_ok hTurn
  obtain rfl := Except.ok.inj (turn.votes.symm.trans hVotes)
  rw [(checkValues_kept hValues).1, turn.adds.createObject turn.fresh] at hCreate
  obtain rfl := some.inj hCreate
  have hFrame : view2 = { turn.voted.view.add o with coins := view2.coins } :=
    updateCoins_frame hCoins
  refine foldlM_except_invariant
    (fun _ (st : ConnectState) => Grows block.hash (turn.voted.view.add o) st.view) turn.rest
    ?_ ?_ hRest
  · rw [hFrame]
    exact Grows.of_coins_votes _ _ _
  · intro done it rest st st' hl hP hStep
    have hSplit : block.vtx.zipIdx = (turn.done ++ (turn.tx, turn.i) :: done) ++ it :: rest := by
      rw [turn.split, hl]
      simp
    exact hP.trans (connectTx_grows (hHashes it.1 (mem_of_zipIdx_split hSplit)) hStep)

/-- **Visible objects.**  An object that `ConnectBlock` adds for an accepted transaction is found at
once and in the view that the block leaves, and every stack of caches that shows this view finds and
lists it, before and after a flush, unless it is a payment request of nothing without an
identifier. -/
theorem accepted_visible_iff
    (hConnect : connectBlock node block pindex pprev fund recorded view = .ok r)
    (hHashes : ∀ tx ∈ block.vtx, tx.hash ≠ 0)
    (turn : AddTurn node block pindex pprev fund recorded view o) :
    ((turn.voted.view.add o).has o = true ∧ r.view.has o = true ∧
      ∀ s, DaoSimulates s r.view → s.Shown o ∧ ∀ depth, (s.flush depth).Shown o) ↔ ¬o.Blank := by
  constructor
  · rintro ⟨hHas, -⟩ hBlank
    rw [turn.adds.blank turn.fresh hBlank] at hHas
    cases hHas
  · intro hBlank
    obtain ⟨-, ⟨hGenesis, -⟩ | ⟨-, ⟨run⟩⟩⟩ := connectBlock_ok hConnect
    · exact absurd hGenesis turn.ordinary
    · have hTx : turn.tx.hash ≠ 0 := hHashes turn.tx (mem_of_zipIdx_split turn.split)
      have hAdded := turn.adds.keeps turn.fresh hTx hBlank
      have hEnd : r.view.Keeps o := by
        rw [run.result]
        exact (hAdded.grows (turn.grows run hHashes)).paysOut run.paysOut
      exact ⟨hAdded.has, hEnd.has, fun s hs => hEnd.shown hs⟩

end Block

/-! ## A payment request -/

/-- A node that reads a request for `n` with the identifier `i`. -/
def requestNode (n i : String) : Node :=
  DaoKind.knowing [("n", .vnum n), ("s", .vstr "signature"), ("h", .vstr "05"), ("i", .vstr i)]

/-- The proposal is accepted, and there are coins for the fee. -/
def requestView : CStateView :=
  { DaoKind.acceptedProposal with
    coins := (∅ : Map UInt256 CCoins).insert 100 ⟨false, false, [some ⟨1000, []⟩], 0, 1⟩ }

def requestTx : CTransaction :=
  { DaoKind.contributing 1000 with nVersion := CTransaction.PAYMENT_REQUEST_VERSION }

def requestCoinbase : CTransaction := ⟨10, 1, 8, [⟨⟨0, 2 ^ 32 - 1⟩⟩], [⟨0, []⟩], ""⟩

def requestBlock : CBlock := ⟨8, 8, 0, [requestCoinbase, requestTx]⟩

/-- What the transaction is converted to. -/
def madeRequest (nAmount : Int) (strDZeel : String) : CPaymentRequest :=
  { nullPaymentRequest with
    nAmount := nAmount, hash := 1, proposalhash := uint256S "05", txblockhash := 8,
    strDZeel := strDZeel, nVersion := 1 }

def connectRequest (n i : String) : Outcome Connected :=
  connectBlock (requestNode n i) requestBlock ⟨8, 2, 8, 0⟩ [⟨7, 1, 0, 0⟩] ⟨0, 0⟩ .empty requestView

def requestContext (n i : String) : ConnectContext :=
  connectContext (requestNode n i) requestBlock ⟨8, 2, 8, 0⟩ [⟨7, 1, 0, 0⟩] []

/-- A turn of the request that can be evaluated. -/
theorem addTurn_request {n i : String} {q : CPaymentRequest}
    (h : ∃ before, [(requestCoinbase, 0)].foldlM (connectTx (requestContext n i))
        (.initial ⟨0, 0⟩ .empty requestView) = .ok before ∧
      ∃ voted, takeVotes (requestContext n i) 1 requestTx before = .ok voted ∧
      isValidPaymentRequest (requestNode n i) voted.view requestTx
        (requestContext n i).mask.nPaymentRequestMask = some true ∧
      txToPaymentRequest (requestNode n i) requestTx 8 = some q ∧
      (voted.view.getProposal q.proposalhash).any
        (·.getLastState (requestNode n i).mapBlockIndex == .accepted) = true ∧
      voted.view.has (.paymentRequest q) = false) :
    Nonempty (AddTurn (requestNode n i) requestBlock ⟨8, 2, 8, 0⟩ [⟨7, 1, 0, 0⟩] ⟨0, 0⟩ .empty
      requestView (.paymentRequest q)) := by
  obtain ⟨before, hBefore, voted, hVoted, hValid, hTo, hProposal, hFresh⟩ := h
  exact ⟨{
    stakerScript := [], done := [(requestCoinbase, 0)], tx := requestTx, i := 1, rest := []
    before := before, voted := voted
    ordinary := show (8 : UInt256) ≠ mainParams.genesis.hash by decide +kernel
    staker := rfl
    split := rfl
    loop := hBefore
    votes := hVoted
    adds := .paymentRequest rfl rfl hValid hTo hProposal
    fresh := hFresh }⟩

/-- A request for 10 becomes visible. -/
theorem accepted_visible_ten : ∃ r, connectRequest "10" "a request" = .ok r ∧
    r.view.has (.paymentRequest (madeRequest 10 "a request")) = true := by
  obtain ⟨r, hr, -⟩ : ∃ r, connectRequest "10" "a request" = .ok r ∧ True := by decide +kernel
  obtain ⟨turn⟩ := addTurn_request (n := "10") (i := "a request") (q := madeRequest 10 "a request")
    (by decide +kernel)
  have hIff := accepted_visible_iff hr (by decide) turn
  refine ⟨r, hr, (hIff.mpr ?_).2.1⟩
  rintro ⟨hAmount, -⟩
  exact absurd hAmount (by decide)

/-- **An invisible request.**  A request for 0 without an identifier is accepted and added, and then
there is no such request. -/
theorem accepted_invisible : ∃ r, connectRequest "0" "" = .ok r ∧
    Nonempty (AddTurn (requestNode "0" "") requestBlock ⟨8, 2, 8, 0⟩ [⟨7, 1, 0, 0⟩] ⟨0, 0⟩ .empty
      requestView (.paymentRequest (madeRequest 0 ""))) ∧
    r.view.has (.paymentRequest (madeRequest 0 "")) = false ∧ r.view.paymentRequests = ∅ := by
  obtain ⟨r, hr, hHas, hEmpty⟩ : ∃ r, connectRequest "0" "" = .ok r ∧
      r.view.has (.paymentRequest (madeRequest 0 "")) = false ∧
      r.view.paymentRequests.isEmpty = true := by
    decide +kernel
  exact ⟨r, hr, addTurn_request (by decide +kernel), hHas, Std.ExtTreeMap.isEmpty_iff.mp hEmpty⟩

end Electrum
