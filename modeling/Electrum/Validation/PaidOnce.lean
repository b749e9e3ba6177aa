import Electrum.Validation.Finality
import Electrum.Validation.Supply

/-!
# Payment requests are paid once

Above the fork the payout loop matches an output only with a request whose last state is
ACCEPTED, and marks the request as PAID at once.  A request enters ACCEPTED from NIL alone, so
a request that was matched is never matched again: not by a later output of the coinbase, which
reads the new state back, and not in a later block.

Main results:
* `checkCoinbase_payouts` — what the loop matches in one coinbase
* `paidInv_step` — one block pays no request that was paid before
* `requests_paid_once` — along a chain
-/

namespace Electrum

open List Option

/-! ## The fees of a block -/

/-- The fees of the transactions in a list, over the coins of a view: what those that are
neither coinbase nor coinstake spend beyond what they pay out. -/
def blockFees (nHeight : Nat) : CStateView → List CTransaction → Int
  | _, [] => 0
  | view, tx :: rest =>
    let later := ((updateCoins view tx nHeight).map fun r => blockFees nHeight r.1 rest).getD 0
    if tx.isCoinBase || tx.isCoinStake then later
    else view.getValueIn tx - tx.getValueOut + later

/-- The loop of `ConnectBlock` collects the fees. -/
theorem connectTxs_fees {ctx : ConnectContext} {txs : List CTransaction} {k : Nat}
    {st st' : ConnectState} (view : CStateView) (hCoins : view.coins = st.view.coins)
    (hTxs : ∀ tx ∈ txs, checkTransaction tx = true)
    (h : (txs.zipIdx k).foldlM (connectTx ctx) st = .ok st') :
    st'.nFees = st.nFees + blockFees ctx.pindex.nHeight view txs := by
  induction txs generalizing k st view with
  | nil =>
    cases h
    exact (Int.add_zero _).symm
  | cons tx rest ih =>
    rw [zipIdx_cons, foldlM_cons, Except.bind_eq_ok] at h
    obtain ⟨st1, hStep, hRest⟩ := h
    obtain ⟨-, hUpd, -, hValues⟩ := connectTx_ledger (hTxs tx mem_cons_self) hStep
    rw [map_eq_some_iff] at hUpd
    obtain ⟨r, hr, hrCoins⟩ := hUpd
    have hUpdate := updateCoins_of_coins hCoins hr
    have hLater := ih { view with coins := r.1.coins } hrCoins
      (fun t ht => hTxs t (mem_cons_of_mem _ ht)) hRest
    rw [hLater, blockFees]
    simp only [hUpdate, map_some, getD_some, getValueIn_congr hCoins]
    rcases hValues with ⟨hCb, hFees, -⟩ | ⟨hCb, hCs, hFees, -⟩ | ⟨hCb, hCs, -, hFees, -⟩
    · rw [hFees, hCb]
      rfl
    · rw [hFees, hCb, hCs]
      rfl
    · rw [hCb, hCs]
      simp only [Bool.or_self, Bool.false_eq_true, if_false]
      omega

variable {node : Node} {block : CBlock} {pindex : CBlockIndex} {pprev : Chain} {view : CStateView}
  {r : Connected} {fund : Fund} {recorded : RecordedVotes} {out : CTxOut} {st : ChainState}

theorem ConnectRun.fees (hCheck : checkBlock node block = true)
    (run : ConnectRun node block pindex pprev fund recorded view r) :
    run.st.nFees = blockFees pindex.nHeight view block.vtx := by
  obtain ⟨coinbase, rest, hVtx, -, hTx, hTxs, -⟩ := checkBlock_vtx hCheck
  have hAll : ∀ tx ∈ block.vtx, checkTransaction tx = true := by
    intro tx hMem
    rw [hVtx] at hMem
    rcases mem_cons.mp hMem with rfl | hRest
    · exact hTx
    · exact (hTxs tx hRest).1
  have hFees := connectTxs_fees view rfl hAll run.loop
  rw [hFees]
  exact Int.zero_add _

/-! ## One coinbase -/

/-- The outputs of a coinbase that must pay a request: those with value, once the running total
exceeds the reward. -/
def paidOutputs (reward : Int) : Int → List CTxOut → List CTxOut
  | _, [] => []
  | nAccValue, out :: rest =>
    let nAccValue := nAccValue + out.nValue
    if reward < nAccValue ∧ 0 < out.nValue then out :: paidOutputs reward nAccValue rest
    else paidOutputs reward nAccValue rest

theorem paidOutputs_concat (reward nAccValue : Int) (vout : List CTxOut) (out : CTxOut) :
    paidOutputs reward nAccValue (vout ++ [out]) = paidOutputs reward nAccValue vout ++
      if reward < nAccValue + (vout.map (·.nValue)).sum + out.nValue ∧ 0 < out.nValue then [out]
      else [] := by
  induction vout generalizing nAccValue with
  | nil => simp [paidOutputs]
  | cons first vout ih =>
    simp only [cons_append, paidOutputs, ih, map_cons, sum_cons, Int.add_assoc]
    split <;> rfl

/-- An output pays a request of a view: the request is ACCEPTED for long enough at the tip, and
amount and address are its own. -/
structure PaysRequest (node : Node) (pprev : Chain) (view : CStateView) (out : CTxOut)
    (r : CPaymentRequest) : Prop where
  stored : view.getPaymentRequest r.hash = some r
  accepted : r.getLastState node.mapBlockIndex = .accepted
  mature : ∃ pblockindex,
    r.mapState.getLastStateBlockIndexForState node.mapBlockIndex .accepted = some pblockindex ∧
    (node.params.nCommunityFundMinAge : Int) < (tipHeight pprev : Int) - pblockindex.nHeight
  amount : out.nValue = r.nAmount
  address : ∃ proposal, view.getProposal r.proposalhash = some proposal ∧
    node.extractAddress out.scriptPubKey = some proposal.getPaymentAddress

/-- Every request of the view is stored under its hash. -/
def RequestsKeyed (view : CStateView) : Prop :=
  ∀ hash r, view.getPaymentRequest hash = some r → r.hash = hash

/-- Every request of the view belongs to a proposal of it. -/
def RequestsReferred (view : CStateView) : Prop :=
  ∀ hash r, view.getPaymentRequest hash = some r → (view.getProposal r.proposalhash).isSome = true

/-- Above the fork a matched output pays the request it is matched with. -/
theorem matchPayout_pays {metadata : Option (List UniValue)} {n : Nat} {prid : UInt256}
    {r : CPaymentRequest} (hFork : node.params.nHeightv452Fork ≤ tipHeight pprev)
    (hKeyed : RequestsKeyed view)
    (h : matchPayout node pprev view metadata n out = some (prid, r)) :
    r.hash = prid ∧ PaysRequest node pprev view out r := by
  simp only [matchPayout, bind_eq_bind, bind_eq_some_iff] at h
  obtain ⟨values, -, v, -, str, -, r', hr, proposal, hProposal, address, hAddress, tip, hTip, h⟩
    := h
  have hHeight : tip.nHeight = tipHeight pprev := by
    rw [tipHeight, hTip]
    rfl
  split at h
  case isFalse => cases h
  case isTrue hCond =>
    cases h
    rw [hHeight, decide_eq_true hFork] at hCond
    simp only [Bool.and_eq_true, Bool.not_true, Bool.false_or, beq_iff_eq] at hCond
    obtain ⟨⟨⟨hAmount, hState⟩, hPaid⟩, hMature⟩ := hCond
    have hHash : r.hash = _ := hKeyed _ r hr
    refine ⟨hHash, ?_, hState, ?_, hAmount, proposal, hProposal, ?_⟩
    · rw [hHash]
      exact hr
    · obtain ⟨pblockindex, hIndex, hAge⟩ := (any_eq_true _ _).mp hMature
      exact ⟨pblockindex, hIndex, of_decide_eq_true hAge⟩
    · rw [hAddress, hPaid]

/-- What the payout loop has done when it comes to an output: the outputs that had to pay a
request are matched in order, with different requests, which are PAID now; all other requests
are as they were. -/
structure PayoutsMade (node : Node) (pindex : CBlockIndex) (pprev : Chain) (reward : Int)
    (view : CStateView) (done : List CTxOut) (st : CoinbaseState) : Prop where
  total : st.nAccValue = (done.map (·.nValue)).sum
  pays : List.Forall₂ (PaysRequest node pprev view) (paidOutputs reward 0 done) st.matched
  distinct : (st.matched.map (·.hash)).Nodup
  marked : ∀ r ∈ st.matched, st.view.getPaymentRequest r.hash = some (r.setState pindex .paid)
  others : ∀ hash, hash ∉ st.matched.map (·.hash) →
    st.view.getPaymentRequest hash = view.getPaymentRequest hash
  frame : st.view = { view with paymentRequests := st.view.paymentRequests }

/-- The matched requests were in the view, and ACCEPTED. -/
theorem PayoutsMade.paid {reward : Int} {done : List CTxOut} {st : CoinbaseState}
    (h : PayoutsMade node pindex pprev reward view done st) {r : CPaymentRequest}
    (hr : r ∈ st.matched) : view.getPaymentRequest r.hash = some r ∧
      r.getLastState node.mapBlockIndex = .accepted := by
  have hPays := h.pays
  generalize paidOutputs reward 0 done = outs at hPays
  generalize st.matched = matched at hPays hr
  induction hPays with
  | nil => cases hr
  | cons hFirst _ ih =>
    rcases mem_cons.mp hr with rfl | hRest
    · exact ⟨hFirst.stored, hFirst.accepted⟩
    · exact ih hRest

section Coinbase

variable {node : Node} {pindex : CBlockIndex} {pprev : Chain} {reward : Int} {view : CStateView}
  (hFork : node.params.nHeightv452Fork ≤ tipHeight pprev)
  (hKnown : node.mapBlockIndex[pindex.phashBlock]? = some pindex)
  (hAbove : tipHeight pprev < pindex.nHeight) (hKeyed : RequestsKeyed view)
  (hBelow : StatesBelow node.toEnv (tipHeight pprev) view)
include hFork hKnown hAbove hKeyed hBelow

/-- One output: it pays nothing, or a request that no earlier output of the block paid. -/
theorem PayoutsMade.step {metadata : Option (List UniValue)} {done : List CTxOut} {out : CTxOut}
    {st st' : CoinbaseState} (h : PayoutsMade node pindex pprev reward view done st)
    (hStep : coinbaseStep node pindex pprev reward metadata st out = some st') :
    PayoutsMade node pindex pprev reward view (done ++ [out]) st' := by
  have hTotal : st.nAccValue + out.nValue = ((done ++ [out]).map (·.nValue)).sum := by
    rw [h.total]
    simp
  have hOutputs := paidOutputs_concat reward 0 done out
  rw [Int.zero_add, ← h.total] at hOutputs
  rcases coinbaseStep_cases hStep with ⟨hNot, rfl⟩ | ⟨hTrigger, prid, r, hMatch, rfl⟩
  · rw [if_neg hNot, append_nil] at hOutputs
    exact ⟨hTotal, hOutputs ▸ h.pays, h.distinct, h.marked, h.others, h.frame⟩
  · rw [if_pos hTrigger] at hOutputs
    have hStateKeyed : RequestsKeyed st.view := by
      intro hash q hq
      by_cases hMem : hash ∈ st.matched.map (·.hash)
      · obtain ⟨p, hp, rfl⟩ := mem_map.mp hMem
        rw [h.marked p hp] at hq
        cases hq
        rfl
      · rw [h.others hash hMem] at hq
        exact hKeyed hash q hq
    obtain ⟨rfl, hPays⟩ := matchPayout_pays hFork hStateKeyed hMatch
    -- a request that was matched before is PAID, and not ACCEPTED
    have hNew : r.hash ∉ st.matched.map (·.hash) := by
      intro hMem
      obtain ⟨p, hp, hEq⟩ := mem_map.mp hMem
      have hMarked := h.marked p hp
      rw [hEq, hPays.stored] at hMarked
      cases hMarked
      have hLast : (p.setState pindex .paid).getLastState node.mapBlockIndex = .paid :=
        (hBelow.paymentRequests _ p (h.paid hp).1).getLastState_setState hKnown hAbove .paid
      rw [hPays.accepted] at hLast
      cases hLast
    have hStored : view.getPaymentRequest r.hash = some r := by
      rw [← h.others r.hash hNew]
      exact hPays.stored
    have hProposals : ∀ hash, st.view.getProposal hash = view.getProposal hash := by
      intro hash
      rw [h.frame]
      rfl
    have hSet : ∀ k, (st.view.setPaymentRequest r.hash (r.setState pindex .paid)).getPaymentRequest
        k = if r.hash = k then some (r.setState pindex .paid) else st.view.getPaymentRequest k :=
      fun k => CStateView.getPaymentRequest_set
        (CPaymentRequest.notNull_of_core (r.setState_notNull pindex .paid)) k
    refine ⟨hTotal, ?_, ?_, ?_, ?_, ?_⟩
    · rw [hOutputs]
      refine rel_append h.pays (List.Forall₂.cons ?_ .nil)
      obtain ⟨proposal, hProposal, hAddress⟩ := hPays.address
      exact ⟨hStored, hPays.accepted, hPays.mature, hPays.amount, proposal,
        (hProposals _).symm.trans hProposal, hAddress⟩
    · rw [map_append, map_singleton, nodup_append]
      refine ⟨h.distinct, nodup_singleton _, fun a ha b hb hEq => hNew ?_⟩
      rw [mem_singleton] at hb
      rw [← hb, ← hEq]
      exact ha
    · intro p hp
      rw [hSet]
      rcases mem_append.mp hp with hOld | hLast
      · rw [if_neg, h.marked p hOld]
        intro hEq
        exact hNew (hEq ▸ mem_map_of_mem hOld)
      · rw [mem_singleton.mp hLast, if_pos rfl]
    · intro hash hNot
      rw [map_append, mem_append, not_or, map_singleton, mem_singleton] at hNot
      rw [hSet, if_neg (Ne.symm hNot.2), h.others hash hNot.1]
    · rw [h.frame]
      rfl

/-- **One coinbase.** -/
theorem checkCoinbase_payouts {coinbase : CTransaction} {cb : CoinbaseState}
    (h : checkCoinbase node pindex pprev reward coinbase view = some cb) :
    PayoutsMade node pindex pprev reward view coinbase.vout cb := by
  refine foldlM_option_invariant
    (fun done (st : CoinbaseState) => PayoutsMade node pindex pprev reward view done st)
    coinbase.vout (b := ⟨view, 0, []⟩) ⟨rfl, .nil, nodup_nil, ?_, fun _ _ => rfl, rfl⟩ ?_ h
  · intro r hr
    cases hr
  · intro done out rest st st' _ hP hStep
    exact hP.step hFork hKnown hAbove hKeyed hBelow hStep

end Coinbase

/-! ## One block -/

/-- A request that is not going to be ACCEPTED (again). -/
def CPaymentRequest.Settled (env : Env) (r : CPaymentRequest) : Prop :=
  r.getLastState env.mapBlockIndex ≠ .nil ∧ r.getLastState env.mapBlockIndex ≠ .accepted

namespace TipRun

variable {node : Node} {block : CBlock} {pindex : CBlockIndex} {st st' : ChainState}
  (run : TipRun node block pindex st st') (hSane : Sane node st)

include run in
theorem grown_keyed (hKeyed : RequestsKeyed st.view) : RequestsKeyed run.grown := by
  intro hash r hr
  rcases run.grows.newRequests hash r hr with hOld | ⟨hNew, -⟩
  · exact hKeyed hash r hOld
  · exact hNew.keyed

include run hSane in
theorem keyed (hKeyed : RequestsKeyed st.view) : RequestsKeyed st'.view := by
  intro hash r' hr'
  obtain ⟨r, hr, hMoved⟩ := run.run.request_back rfl (run.paid_solid hSane) hr'
  have hHash : r'.hash = r.hash := by
    rw [CPaymentRequest.eq_of_core hMoved.kept]
  rw [hHash]
  obtain ⟨q, hq, rfl | rfl⟩ := run.pays.request_back hr
  · exact run.grown_keyed hKeyed hash r hq
  · exact run.grown_keyed hKeyed hash q hq

include run hSane in
theorem referred (hReferred : RequestsReferred st.view) : RequestsReferred st'.view := by
  intro hash r' hr'
  obtain ⟨r, hr, hMoved⟩ := run.run.request_back rfl (run.paid_solid hSane) hr'
  have hProposal : r'.proposalhash = r.proposalhash := by
    rw [CPaymentRequest.eq_of_core hMoved.kept]
  rw [hProposal]
  obtain ⟨q, hq, hSame⟩ := run.pays.request_back hr
  have hOld : r.proposalhash = q.proposalhash := by
    rcases hSame with rfl | rfl <;> rfl
  rw [hOld]
  -- the proposal is in the view of the transactions, and nothing removes it
  have hGrown : (run.grown.getProposal q.proposalhash).isSome = true := by
    rcases run.grows.newRequests hash q hq with hBefore | ⟨-, hSome⟩
    · exact run.grows.proposal_isSome (hReferred hash q hBefore)
    · exact hSome
  obtain ⟨p, hp⟩ := isSome_iff_exists.mp hGrown
  have hPaid : run.paid.getProposal q.proposalhash = some p := by
    rw [run.pays.frame]
    exact hp
  obtain ⟨p', hp', -⟩ := run.run.proposal rfl (run.paid_solid hSane) hPaid
  rw [hp']
  rfl

variable (hExt : Extends node st.chain block pindex)
include hExt hSane

variable {hash : UInt256} {r : CPaymentRequest}

/-- `VoteStep` rejects a settled request or lets it expire, if it changes it at all. -/
theorem settled_vote (hr : run.paid.getPaymentRequest hash = some r)
    (hUnder : r.mapState.Under node.mapBlockIndex pindex) (hSettled : r.Settled node.toEnv) :
    ∃ r', st'.view.getPaymentRequest hash = some r' ∧ r'.Settled node.toEnv := by
  obtain ⟨r', hr', hMoved, -⟩ := run.run.request rfl (run.paid_solid hSane) hr
  refine ⟨r', hr', ?_⟩
  have hPos : 0 < pindex.nHeight := by
    rw [hExt.height]
    exact Nat.succ_pos _
  rcases hMoved.moved with hMap | ⟨state, hMap, -, hMove⟩
  · unfold CPaymentRequest.Settled CPaymentRequest.getLastState
    rw [hMap]
    exact hSettled
  · have hLast : r'.getLastState node.mapBlockIndex = state := by
      show r'.mapState.getLastState node.mapBlockIndex = state
      rw [hMap]
      exact hUnder.getLastState_setState hExt.known hPos state
    have hState : state = .expired ∨ state = .rejected := by
      cases hMove hSettled.1 with
      | expire => exact .inl rfl
      | reject => exact .inr rfl
    show r'.getLastState node.mapBlockIndex ≠ .nil ∧ r'.getLastState node.mapBlockIndex ≠ .accepted
    rw [hLast]
    rcases hState with rfl | rfl <;> decide

/-- The same for a request that the block marks as PAID. -/
theorem settled_paid (hr : run.paid.getPaymentRequest hash = some (r.setState pindex .paid))
    (hBelow : r.mapState.Below node.mapBlockIndex (tipHeight st.chain)) :
    ∃ r', st'.view.getPaymentRequest hash = some r' ∧ r'.Settled node.toEnv := by
  have hAbove := hExt.above
  have hLast : (r.setState pindex .paid).getLastState node.mapBlockIndex = .paid :=
    hBelow.getLastState_setState hExt.known hAbove .paid
  refine run.settled_vote hSane hExt hr ((hBelow.under hAbove).setState .paid) ?_
  show (r.setState pindex .paid).getLastState node.mapBlockIndex ≠ .nil ∧
    (r.setState pindex .paid).getLastState node.mapBlockIndex ≠ .accepted
  rw [hLast]
  decide

include run in
/-- **Settled requests.** A block leaves them settled. -/
theorem settled (hr : st.view.getPaymentRequest hash = some r) (hSettled : r.Settled node.toEnv) :
    ∃ r', st'.view.getPaymentRequest hash = some r' ∧ r'.Settled node.toEnv := by
  have hBelow := hSane.below.paymentRequests hash r hr
  have hAbove := hExt.above
  rcases run.pays.requests hash r (run.grows.requests hash r hr) with hSame | ⟨hPaid, -⟩
  · exact run.settled_vote hSane hExt hSame (hBelow.under hAbove) hSettled
  · exact run.settled_paid hSane hExt hPaid hBelow

end TipRun

/-! ## Runs -/

/-- The requests that the coinbase of a block is matched with, if the block is accepted and
lies above the fork. -/
def paidBy (node : Node) (block : CBlock) (pindex : CBlockIndex) (st : ChainState) :
    List UInt256 :=
  if node.params.nHeightv452Fork < pindex.nHeight then
    match connectBlock node block pindex st.chain st.fund st.recorded st.view with
    | .ok r => r.matched.map (·.hash)
    | .error _ => []
  else []

/-- One more block, and a log of the matched requests. -/
def PaidStep (node : Node) (s s' : ChainState × List UInt256) : Prop :=
  ∃ block pindex, Extends node s.1.chain block pindex ∧
    connectTip node block pindex s.1 = some s'.1 ∧ s'.2 = s.2 ++ paidBy node block pindex s.1

def PaidRun (node : Node) :
    ChainState × List UInt256 → ChainState × List UInt256 → Prop :=
  Relation.ReflTransGen (PaidStep node)

/-- The log has every request once, and the requests in it are settled. -/
structure PaidInv (node : Node) (s : ChainState × List UInt256) : Prop where
  sane : Sane node s.1
  keyed : RequestsKeyed s.1.view
  referred : RequestsReferred s.1.view
  distinct : s.2.Nodup
  settled : ∀ hash ∈ s.2, ∃ r, s.1.view.getPaymentRequest hash = some r ∧ r.Settled node.toEnv

/-- What `ConnectBlock` matches above the fork. -/
theorem connectBlock_payouts (hSane : Sane node st) (hKeyed : RequestsKeyed st.view)
    (hExt : Extends node st.chain block pindex)
    (hFork : node.params.nHeightv452Fork < pindex.nHeight)
    (run : ConnectRun node block pindex st.chain st.fund st.recorded st.view r) :
    PayoutsMade node pindex st.chain (nPOWBlockReward block pindex.nHeight run.st.nFees)
      run.st.view run.coinbase.vout run.cb := by
  have hHeight := hExt.height
  have hGrows := run.grows hExt.hashes
  have hGrownKeyed : RequestsKeyed run.st.view := by
    intro hash q hq
    rcases hGrows.newRequests hash q hq with hOld | ⟨hNew, -⟩
    · exact hKeyed hash q hOld
    · exact hNew.keyed
  exact checkCoinbase_payouts (by omega) hExt.known (by omega) hGrownKeyed
    (hGrows.statesBelow hSane.below) run.payout

/-- The requests that a block above the fork is matched with: all different, none of them
settled before, all of them marked as PAID. -/
theorem paidBy_spec (hSane : Sane node st) (hKeyed : RequestsKeyed st.view)
    (hExt : Extends node st.chain block pindex)
    (hConnect : connectBlock node block pindex st.chain st.fund st.recorded st.view = .ok r) :
    (paidBy node block pindex st).Nodup ∧ ∀ hash ∈ paidBy node block pindex st, ∃ q : CPaymentRequest,
      r.view.getPaymentRequest hash = some (q.setState pindex .paid) ∧
      q.mapState.Below node.mapBlockIndex (tipHeight st.chain) ∧
      ∀ old, st.view.getPaymentRequest hash = some old → ¬old.Settled node.toEnv := by
  unfold paidBy
  rw [hConnect]
  dsimp only
  split
  case isFalse =>
    exact ⟨nodup_nil, fun hash hMem => by cases hMem⟩
  case isTrue hFork =>
    obtain ⟨hCheck, ⟨-, rfl⟩ | ⟨-, ⟨run⟩⟩⟩ := connectBlock_ok hConnect
    · exact ⟨nodup_nil, fun hash hMem => by cases hMem⟩
    · have hMade := connectBlock_payouts hSane hKeyed hExt hFork run
      have hGrows := run.grows hExt.hashes
      have hMatched : r.matched = run.cb.matched := congrArg Connected.matched run.result
      have hView : r.view = run.cb.view := congrArg Connected.view run.result
      rw [hMatched, hView]
      refine ⟨hMade.distinct, fun hash hMem => ?_⟩
      obtain ⟨q, hq, rfl⟩ := mem_map.mp hMem
      have hPays := hMade.paid hq
      refine ⟨q, hMade.marked q hq,
        (hGrows.statesBelow hSane.below).paymentRequests q.hash q hPays.1, ?_⟩
      intro old hOld hSettled
      have hSame := hGrows.requests q.hash old hOld
      rw [hPays.1] at hSame
      cases hSame
      exact hSettled.2 hPays.2

/-- **Step.** -/
theorem paidInv_step {s s' : ChainState × List UInt256} (hInv : PaidInv node s)
    (hStep : PaidStep node s s') : PaidInv node s' := by
  obtain ⟨st, log⟩ := s
  obtain ⟨st', log'⟩ := s'
  obtain ⟨block, pindex, hExt, hConnect, hLog⟩ := hStep
  obtain ⟨hSane, hKeyed, hReferred, hDistinct, hSettled⟩ := hInv
  subst hLog
  unfold connectTip at hConnect
  split at hConnect
  case h_1 recorded hError =>
    cases hConnect
    have hNone : paidBy node block pindex st = [] := by
      unfold paidBy
      rw [hError]
      split <;> rfl
    rw [hNone, append_nil]
    exact ⟨⟨hSane.solid, hSane.below⟩, hKeyed, hReferred, hDistinct, hSettled⟩
  case h_2 r hOk =>
    rw [map_eq_some_iff] at hConnect
    obtain ⟨v, hVote, rfl⟩ := hConnect
    obtain ⟨run, hPaid⟩ := connected_run hExt.hashes hOk hVote
    obtain ⟨hNew, hMarked⟩ := paidBy_spec hSane hKeyed hExt hOk
    refine ⟨run.sane hExt hSane, run.keyed hSane hKeyed, run.referred hSane hReferred, ?_, ?_⟩
    · -- what was logged before is settled, and so not matched now
      refine nodup_append.mpr ⟨hDistinct, hNew, fun hash hOld hash' hMem hEq => ?_⟩
      subst hEq
      obtain ⟨old, hGet, hOldSettled⟩ := hSettled hash hOld
      obtain ⟨q, -, -, hNot⟩ := hMarked hash hMem
      exact hNot old hGet hOldSettled
    · intro hash hMem
      rcases mem_append.mp hMem with hOld | hMatched
      · obtain ⟨old, hGet, hOldSettled⟩ := hSettled hash hOld
        exact run.settled hSane hExt hGet hOldSettled
      · obtain ⟨q, hGet, hBelow, -⟩ := hMarked hash hMatched
        rw [← hPaid] at hGet
        exact run.settled_paid hSane hExt hGet hBelow

/-- A request that an output pays was there before the block, with its proposal. -/
theorem PaysRequest.before {block : UInt256}
    {grown : CStateView} (hGrows : Grows block view grown) (hReferred : RequestsReferred view)
    {r : CPaymentRequest} (h : PaysRequest node pprev grown out r) :
    PaysRequest node pprev view out r := by
  have hStored : view.getPaymentRequest r.hash = some r := by
    rcases hGrows.newRequests r.hash r h.stored with hOld | ⟨hNew, -⟩
    · exact hOld
    · have hState := h.accepted
      rw [CPaymentRequest.getLastState, hNew.stateless] at hState
      cases hState
  obtain ⟨proposal, hProposal, hAddress⟩ := h.address
  obtain ⟨old, hOld⟩ := isSome_iff_exists.mp (hReferred r.hash r hStored)
  rw [hGrows.proposals _ old hOld] at hProposal
  cases hProposal
  exact ⟨hStored, h.accepted, h.mature, h.amount, _, hOld, hAddress⟩

/-- The reward of a connected block is not negative. -/
theorem ConnectRun.reward_nonneg (hCheck : checkBlock node block = true)
    (run : ConnectRun node block pindex pprev fund recorded view r) :
    0 ≤ nPOWBlockReward block pindex.nHeight run.st.nFees := by
  have hSubsidy : 0 ≤ getBlockSubsidy pindex.nHeight := by
    unfold getBlockSubsidy COIN
    split <;> decide
  have hFees := (run.created hCheck).1
  unfold nPOWBlockReward
  split <;> omega

theorem paidInv_genesis (node : Node) (genesis : CBlockIndex) :
    PaidInv node (.genesis genesis, []) := by
  refine ⟨sane_genesis node genesis, fun hash r hr => ?_, fun hash r hr => ?_, nodup_nil,
    fun hash hMem => by cases hMem⟩
  all_goals simp [ChainState.genesis, CStateView.empty, CStateView.getPaymentRequest] at hr

/-- **Paid once.** Along every chain, from the genesis block or from any state with the
invariant, the requests matched above the fork are all different; and in every block above the
fork each output that has to pay a request pays the one it is matched with, which is ACCEPTED
for more than `nCommunityFundMinAge` blocks, with its amount, to the address of its proposal.
The coinbase pays at most the reward and these amounts. -/
theorem requests_paid_once {node : Node} {s₀ s : ChainState × List UInt256}
    (hStart : PaidInv node s₀) (hRun : PaidRun node s₀ s) :
    s.2.Nodup ∧ ∀ block pindex r, Extends node s.1.chain block pindex →
      node.params.nHeightv452Fork < pindex.nHeight → block.hash ≠ node.params.genesis.hash →
      connectBlock node block pindex s.1.chain s.1.fund s.1.recorded s.1.view = .ok r →
      ∃ coinbase, block.vtx.head? = some coinbase ∧
        List.Forall₂ (PaysRequest node s.1.chain s.1.view)
          (paidOutputs (nPOWBlockReward block pindex.nHeight
            (blockFees pindex.nHeight s.1.view block.vtx)) 0 coinbase.vout) r.matched ∧
        coinbase.getValueOut ≤ nPOWBlockReward block pindex.nHeight
          (blockFees pindex.nHeight s.1.view block.vtx) + matchedValue r.matched := by
  have hInv : PaidInv node s := run_invariant hRun hStart fun _ _ hs hStep => paidInv_step hs hStep
  refine ⟨hInv.distinct, fun block pindex r hExt hFork hNotGenesis hConnect => ?_⟩
  obtain ⟨hCheck, ⟨hGenesis, -⟩ | ⟨-, ⟨run⟩⟩⟩ := connectBlock_ok hConnect
  · exact absurd hGenesis hNotGenesis
  · have hMade := connectBlock_payouts hInv.sane hInv.keyed hExt hFork run
    have hGrows := run.grows hExt.hashes
    have hMatched : r.matched = run.cb.matched := congrArg Connected.matched run.result
    have hBound := checkCoinbase_bound (run.reward_nonneg hCheck) run.payout
    rw [← run.fees hCheck, hMatched]
    exact ⟨run.coinbase, run.head,
      hMade.pays.imp fun _ _ hPays => hPays.before hGrows hInv.referred, hBound⟩

/-! ## A payout -/

/-- A block that pays the five coins of the request. -/
def payBlock : CBlock :=
  ⟨160, 160, 0, [⟨1160, 1, 160, [⟨⟨0, 2 ^ 32 - 1⟩⟩], [⟨5, [0x51]⟩], ""⟩]⟩

/-- A block that pays one request. -/
theorem requests_paid_once_payBlock :
    ∃ st, connectTip payNode payBlock (smallBlock 160) payState = some st ∧
      paidBy payNode payBlock (smallBlock 160) payState = [50] ∧
      ([] ++ paidBy payNode payBlock (smallBlock 160) payState).Nodup := by
  obtain ⟨st, hst⟩ := Option.isSome_iff_exists.mp (show (connectTip payNode payBlock
    (smallBlock 160) payState).isSome = true by decide +kernel)
  have hSane : Sane payNode payState := ⟨by decide +kernel, by decide +kernel⟩
  have hStored : ∀ (hash : UInt256) (r : CPaymentRequest),
      payState.view.paymentRequests[hash]? = some r →
      r.hash = hash ∧ (payState.view.getProposal r.proposalhash).isSome = true := by
    decide +kernel
  have hStart : PaidInv payNode (payState, []) :=
    ⟨hSane, fun hash r hr => (hStored hash r hr).1, fun hash r hr => (hStored hash r hr).2,
      nodup_nil, fun hash hMem => by cases hMem⟩
  have hExt : Extends payNode payState.chain payBlock (smallBlock 160) :=
    ⟨rfl, rfl, rfl, by decide +kernel, rfl, by decide⟩
  have hStep : PaidStep payNode (payState, [])
      (st, [] ++ paidBy payNode payBlock (smallBlock 160) payState) :=
    ⟨payBlock, smallBlock 160, hExt, hst, rfl⟩
  exact ⟨st, hst, by decide +kernel, (requests_paid_once hStart (.single hStep)).1⟩

end Electrum
