import Electrum.Lib.Fold
import Electrum.Validation.ConnectBlock

/-!
# What a block spends

The undo data that `ConnectBlock` collects holds every output the block spends.  This module
relates their values to `GetValueIn`, and bounds what a coinbase pays out.

Main results:
* `spentValue_updateCoins` — the undo data of a transaction is worth its inputs
* `checkCoinbase_bound` — the coinbase pays at most the reward and the matched requests
-/

namespace Electrum

open Option List

/-- The value of the outputs in the undo data of one transaction. -/
def spentValue (undo : List CTxInUndo) : Int := (undo.map (·.txout.nValue)).sum

/-- The value of all outputs a block spends, from its undo data. -/
def blockSpentValue (vtxundo : List (List CTxInUndo)) : Int := (vtxundo.map spentValue).sum

/-- The value of all outputs of a block. -/
def blockValueOut (block : CBlock) : Int := (block.vtx.map CTransaction.getValueOut).sum

/-! ## Spending one output -/

/-- Dropping the spent outputs at the end does not change what is available. -/
theorem cleanup_join (vout : List (Option CTxOut)) (m : Nat) :
    (CCoins.cleanup vout)[m]?.join = vout[m]?.join := by
  have hSplit : vout = CCoins.cleanup vout ++
      (vout.reverse.takeWhile (·.isNone)).reverse := by
    rw [CCoins.cleanup, ← reverse_append, takeWhile_append_dropWhile, reverse_reverse]
  have hNone : ∀ o ∈ (vout.reverse.takeWhile (·.isNone)).reverse, o = none := by
    intro o ho
    rw [mem_reverse] at ho
    exact isNone_iff_eq_none.mp (mem_takeWhile_imp ho)
  generalize (vout.reverse.takeWhile (·.isNone)).reverse = tail at hSplit hNone
  rcases Nat.lt_or_ge m (CCoins.cleanup vout).length with hlt | hge
  · conv_rhs => rw [hSplit, List.getElem?_append_left hlt]
  · conv_rhs => rw [hSplit, List.getElem?_append_right hge]
    rw [List.getElem?_eq_none hge]
    cases hTail : tail[m - (CCoins.cleanup vout).length]? with
    | none => rfl
    | some o => rw [hNone o (mem_of_getElem? hTail)]; rfl

theorem available_spend (coins : CCoins) (n m : Nat) :
    (coins.spend n).available m = if m = n then none else coins.available m := by
  unfold CCoins.available CCoins.spend
  simp only [cleanup_join, List.getElem?_set]
  by_cases hmn : m = n
  · subst hmn
    by_cases hlt : m < coins.vout.length <;> simp [hlt]
  · simp [hmn, Ne.symm hmn]

/-- A pruned entry has nothing available. -/
theorem available_of_isPruned {coins : CCoins} (h : coins.isPruned = true) (n : Nat) :
    coins.available n = none := by
  rw [CCoins.isPruned, List.isEmpty_iff] at h
  simp [CCoins.available, h]

/-- Writing an entry back changes what is available under its key only. -/
theorem outputFor_setCoins (view : CStateView) (txid : UInt256) (coins : CCoins)
    (prevout : COutPoint) :
    (view.setCoins txid coins).outputFor prevout =
      if prevout.hash = txid then coins.available prevout.n else view.outputFor prevout := by
  unfold CStateView.outputFor CStateView.setCoins
  rw [Map.getElem?_setUnless]
  by_cases hEq : prevout.hash = txid
  · subst hEq
    by_cases hPruned : coins.isPruned = true
    · simp [hPruned, available_of_isPruned hPruned]
    · simp [hPruned]
  · rw [if_neg (Ne.symm hEq), if_neg hEq]

variable {st st' r : CStateView × List CTxInUndo} {txin : CTxIn} {metadata : Option (List UniValue)}
  {out : CTxOut} {pindex : CBlockIndex} {reward : Int}

/-- **One input.** Spending it yields its output as undo data and leaves every other output as
it was. -/
theorem spendInput_some (h : spendInput st txin = some st') :
    ∃ out undo, st.1.outputFor txin.prevout = some out ∧ undo.txout = out ∧ st'.2 = st.2 ++ [undo] ∧
      ∀ prevout, prevout ≠ txin.prevout → st'.1.outputFor prevout = st.1.outputFor prevout := by
  unfold spendInput at h
  split at h
  case h_2 => cases h
  case h_1 coins out hCoins hOut =>
    cases h
    refine ⟨out, _, hOut, ?_, rfl, ?_⟩
    · split <;> rfl
    · intro prevout hne
      rw [outputFor_setCoins]
      by_cases hHash : prevout.hash = txin.prevout.hash
      · rw [if_pos hHash, available_spend, if_neg]
        · simp [CStateView.outputFor, hHash, hCoins]
        · intro hn
          cases prevout
          simp_all
      · rw [if_neg hHash]

theorem spendInput_outputFor (h : spendInput st txin = some st') (prevout : COutPoint) :
    st'.1.outputFor prevout = if prevout = txin.prevout then none else st.1.outputFor prevout := by
  by_cases hEq : prevout = txin.prevout
  · rw [if_pos hEq, hEq]
    unfold spendInput at h
    split at h
    case h_1 =>
      cases h
      rw [outputFor_setCoins, if_pos rfl, available_spend, if_pos rfl]
    case h_2 => cases h
  · obtain ⟨out, undo, -, -, -, hFrame⟩ := spendInput_some h
    rw [if_neg hEq, hFrame prevout hEq]

variable {view : CStateView} {node : Node} {pprev : Chain}

/-- The inputs of a transaction are worth what its undo data holds. -/
theorem spentValue_foldlM {vin : List CTxIn}
    (hNodup : (vin.map (·.prevout)).Nodup) (h : vin.foldlM spendInput (view, []) = some r) :
    spentValue r.2 =
      (vin.map fun txin => ((view.outputFor txin.prevout).map (·.nValue)).getD 0).sum := by
  -- what the visited inputs were worth, and the others are untouched
  have hInv := foldlM_option_invariant
    (fun done (st : CStateView × List CTxInUndo) =>
      spentValue st.2 =
        (done.map fun txin => ((view.outputFor txin.prevout).map (·.nValue)).getD 0).sum ∧
      ∀ prevout, (∀ txin ∈ done, prevout ≠ txin.prevout) →
        st.1.outputFor prevout = view.outputFor prevout)
    vin (b := (view, [])) (r := r) ?_ ?_ h
  · exact hInv.1
  · exact ⟨rfl, fun _ _ => rfl⟩
  · intro done txin rest st st' hl hP hStep
    obtain ⟨out, undo, hOut, hUndo, hList, hFrame⟩ := spendInput_some hStep
    have hFresh : ∀ txin' ∈ done, txin.prevout ≠ txin'.prevout := by
      intro txin' hMem hEq
      rw [hl, map_append, nodup_append] at hNodup
      exact hNodup.2.2 _ (mem_map_of_mem hMem) _ (by simp) hEq.symm
    refine ⟨?_, ?_⟩
    · rw [hList, map_append, sum_append, ← hP.1]
      rw [hP.2 _ hFresh] at hOut
      simp [spentValue, hOut, hUndo]
    · intro prevout hNot
      rw [hFrame prevout (hNot txin (by simp))]
      exact hP.2 prevout (fun txin' hMem => hNot txin' (by simp [hMem]))

/-- **Undo data.** The outputs a transaction spends are worth `GetValueIn`. -/
theorem spentValue_updateCoins {tx : CTransaction} {nHeight : Nat}
    (hNodup : (tx.vin.map (·.prevout)).Nodup) (h : updateCoins view tx nHeight = some r) :
    spentValue r.2 = view.getValueIn tx := by
  unfold updateCoins at h
  rw [map_eq_some_iff] at h
  obtain ⟨st, hSt, rfl⟩ := h
  unfold CStateView.getValueIn
  by_cases hCb : tx.isCoinBase = true
  · rw [if_pos hCb] at hSt ⊢
    cases hSt
    rfl
  · rw [if_neg hCb] at hSt ⊢
    exact spentValue_foldlM (r := st) hNodup hSt

/-! ## The coinbase payout loop -/

/-- The value of the payment requests a coinbase matched. -/
def matchedValue (matched : List CPaymentRequest) : Int := (matched.map (·.nAmount)).sum

/-- A matched output pays exactly the amount of its request. -/
theorem matchPayout_nAmount {n : Nat} {prid : UInt256} {prequest : CPaymentRequest}
    (h : matchPayout node pprev view metadata n out = some (prid, prequest)) :
    out.nValue = prequest.nAmount := by
  simp only [matchPayout, bind_eq_bind, bind_eq_some_iff] at h
  obtain ⟨values, -, v, -, str, -, r, -, proposal, -, address, -, tip, -, hIf⟩ := h
  split at hIf
  case isFalse => cases hIf
  case isTrue hCond =>
    cases hIf
    simp only [Bool.and_eq_true, beq_iff_eq] at hCond
    exact hCond.1.1.1

/-- One turn of the loop either only adds to the running total, while the total stays within
the reward or the output is worth nothing, or matches a payment request. -/
theorem coinbaseStep_cases {st st' : CoinbaseState}
    (h : coinbaseStep node pindex pprev reward metadata st out = some st') :
    (¬(reward < st.nAccValue + out.nValue ∧ 0 < out.nValue) ∧
      st' = { st with nAccValue := st.nAccValue + out.nValue }) ∨
    ((reward < st.nAccValue + out.nValue ∧ 0 < out.nValue) ∧ ∃ prid prequest,
      matchPayout node pprev st.view metadata st.matched.length out = some (prid, prequest) ∧
      st' = {
        view := st.view.setPaymentRequest prid (prequest.setState pindex .paid)
        nAccValue := st.nAccValue + out.nValue
        matched := st.matched ++ [prequest] }) := by
  dsimp only [coinbaseStep] at h
  split at h
  case isTrue hTrigger =>
    simp only [bind_eq_bind, bind_eq_some_iff] at h
    obtain ⟨⟨prid, prequest⟩, hMatch, hSt⟩ := h
    exact .inr ⟨hTrigger, prid, prequest, hMatch, (some.inj hSt).symm⟩
  case isFalse hNot => exact .inl ⟨hNot, (some.inj h).symm⟩

/-- **Coinbase bound.** With a reward that is not negative the coinbase pays at most the reward plus
the payment requests it matches. -/
theorem checkCoinbase_bound {coinbase : CTransaction} {r : CoinbaseState} (hReward : 0 ≤ reward)
    (h : checkCoinbase node pindex pprev reward coinbase view = some r) :
    coinbase.getValueOut ≤ reward + matchedValue r.matched := by
  -- the unmatched part of the running total never exceeds the reward
  have hInv := foldlM_option_invariant
    (fun done (st : CoinbaseState) =>
      st.nAccValue = (done.map (·.nValue)).sum ∧
      st.nAccValue ≤ reward + matchedValue st.matched ∧ 0 ≤ matchedValue st.matched)
    coinbase.vout (b := ⟨view, 0, []⟩) (r := r) ?_ ?_ h
  · rw [CTransaction.getValueOut, ← hInv.1]
    exact hInv.2.1
  · simpa [matchedValue] using hReward
  · intro done out rest st st' hl hP hStep
    have hSum : st.nAccValue + out.nValue = ((done ++ [out]).map (·.nValue)).sum := by
      simp [hP.1]
    rcases coinbaseStep_cases hStep with ⟨hNot, rfl⟩ | ⟨hTrigger, prid, prequest, hMatch, rfl⟩
    · refine ⟨hSum, ?_, hP.2.2⟩
      show st.nAccValue + out.nValue ≤ reward + matchedValue st.matched
      omega
    · have hAmount := matchPayout_nAmount hMatch
      have hMore : matchedValue (st.matched ++ [prequest]) =
          matchedValue st.matched + prequest.nAmount := by
        simp [matchedValue]
      refine ⟨hSum, ?_, ?_⟩
      · show st.nAccValue + out.nValue ≤ reward + matchedValue (st.matched ++ [prequest])
        omega
      · show 0 ≤ matchedValue (st.matched ++ [prequest])
        omega

end Electrum
