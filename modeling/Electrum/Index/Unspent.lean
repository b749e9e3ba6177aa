import Electrum.Index.Records
import Electrum.Lib.Filed

/-!
# The index of unspent outputs

The index should have, for each address, the unspent outputs that are attributed to it, with the
heights of the blocks that created them.  This is so as long as outputs are filed under their
address when they are created and when they are spent, and as long as the undo data has the height
of an output that is restored.

Main results:
* `updateCoins_exact`, `connectCoins_exact` — connecting a transaction, and those of a block
* `disconnectTx_exact`, `disconnectTxs_exact` — disconnecting a transaction, and those of a block
-/

namespace Electrum

open List Bool Function IndexDB CCoins

/-! ## The outputs of the active chain -/

/-- An output and the height of its block. -/
def CTxOut.unspentAt (out : CTxOut) (nHeight : Nat) : CAddressUnspentValue :=
  ⟨out.nValue, out.scriptPubKey, nHeight⟩

def CAddressUnspentValue.out (v : CAddressUnspentValue) : CTxOut := ⟨v.satoshis, v.script⟩

/-- The unspent output, with the height of its block. -/
def CStateView.unspentValue (view : CStateView) (prevout : COutPoint) :
    Option CAddressUnspentValue :=
  (view.coins[prevout.hash]?).bind fun coins =>
    (coins.available prevout.n).map fun out => out.unspentAt coins.nHeight

namespace Indexing

variable (x : Indexing)

/-- The address to which an entry belongs. -/
def owner (v : CAddressUnspentValue) : Option (Nat × UInt160) := x.ownerKey v.script

/-- **Exact.** Under each address and outpoint is the unspent output of the view, if it is
attributed to that address. -/
def Exact (db : Map CAddressUnspentKey CAddressUnspentValue) (view : CStateView) : Prop :=
  Filed unspentKey x.owner db view.unspentValue

end Indexing

theorem unspentKey_injective : Function.Injective2 unspentKey := by
  rintro ⟨type, hash⟩ ⟨type', hash'⟩ ⟨txid, n⟩ ⟨txid', n'⟩ h
  obtain ⟨rfl, rfl, rfl, rfl⟩ := h
  exact ⟨rfl, rfl⟩

theorem unspentValue_setCoins (view : CStateView) (txid : UInt256) (coins : CCoins)
    (prevout : COutPoint) :
    (view.setCoins txid coins).unspentValue prevout = if prevout.hash = txid then
        (coins.available prevout.n).map fun out => out.unspentAt coins.nHeight
      else view.unspentValue prevout := by
  unfold CStateView.unspentValue CStateView.setCoins
  rw [Map.getElem?_setUnless]
  by_cases hEq : prevout.hash = txid
  · subst hEq
    rw [if_pos rfl, if_pos rfl]
    by_cases hPruned : coins.isPruned = true
    · rw [if_pos hPruned, available_of_isPruned hPruned]
      rfl
    · rw [if_neg hPruned]
      rfl
  · rw [if_neg (Ne.symm hEq), if_neg hEq]

/-- The output without the height. -/
theorem outputFor_eq (view : CStateView) (prevout : COutPoint) :
    view.outputFor prevout = (view.unspentValue prevout).map fun v => ⟨v.satoshis, v.script⟩ := by
  unfold CStateView.unspentValue CStateView.outputFor
  cases view.coins[prevout.hash]? with
  | none => rfl
  | some coins =>
    rw [Option.bind_some, Option.bind_some, Option.map_map]
    exact (Option.map_id_apply).symm

variable {view : CStateView} {prevout : COutPoint} {st : CStateView × List CTxInUndo}
  {vin : List CTxIn} {out : CTxOut} {tx : CTransaction} {nHeight : Nat}

theorem unspentValue_outputFor {v : CAddressUnspentValue} (h : view.unspentValue prevout = some v) :
    view.outputFor prevout = some ⟨v.satoshis, v.script⟩ := by
  rw [outputFor_eq, h, Option.map_some]

theorem unspentValue_none : view.unspentValue prevout = none ↔ view.outputFor prevout = none := by
  rw [outputFor_eq, Option.map_eq_none_iff]

/-- **One input.** -/
theorem spendInput_unspentValue {st' : CStateView × List CTxInUndo} {txin : CTxIn}
    (h : spendInput st txin = some st') (prevout : COutPoint) :
    st'.1.unspentValue prevout =
      if prevout = txin.prevout then none else st.1.unspentValue prevout := by
  by_cases hEq : prevout = txin.prevout
  · rw [if_pos hEq, unspentValue_none, spendInput_outputFor h, if_pos hEq]
  · unfold spendInput at h
    split at h
    case h_2 => cases h
    case h_1 coins out hCoins hOut =>
      cases h
      rw [unspentValue_setCoins]
      split
      case isFalse => rfl
      case isTrue hHash =>
        have hIndex : prevout.n ≠ txin.prevout.n := by
          intro hn
          apply hEq
          cases hp : txin.prevout
          rw [hp] at hHash hn
          exact congrArg₂ COutPoint.mk hHash hn
        rw [available_spend, if_neg hIndex, CStateView.unspentValue, hHash, hCoins]
        rfl

/-- **The inputs of a transaction.** -/
theorem spendInputs_unspentValue (h : vin.foldlM spendInput (view, []) = some st)
    (prevout : COutPoint) :
    st.1.unspentValue prevout =
      if prevout ∈ vin.map (·.prevout) then none else view.unspentValue prevout := by
  refine foldlM_option_invariant (fun done (s : CStateView × List CTxInUndo) =>
    s.1.unspentValue prevout =
      if prevout ∈ done.map (·.prevout) then none else view.unspentValue prevout) vin
    (b := (view, [])) rfl ?_ h
  intro done txin rest s s' _ hs hStep
  rw [spendInput_unspentValue hStep, hs]
  by_cases hEq : prevout = txin.prevout
  · simp [hEq]
  · simp [hEq]

/-! ## Records -/

theorem updateUnspent_append (db : Map CAddressUnspentKey CAddressUnspentValue)
    (l l' : List (CAddressUnspentKey × CAddressUnspentValue)) :
    updateUnspent db (l ++ l') = updateUnspent (updateUnspent db l) l' :=
  foldl_append

/-- The records of a loop are written one after the other. -/
theorem updateUnspent_flatMap {γ : Type} (f : γ → IndexRecords) (l : List γ)
    (db : Map CAddressUnspentKey CAddressUnspentValue) :
    updateUnspent db ((l.map f).flatMap (·.addressUnspentIndex)) =
      l.foldl (fun db a => updateUnspent db (f a).addressUnspentIndex) db := by
  induction l generalizing db with
  | nil => rfl
  | cons a rest ih =>
    rw [map_cons, flatMap_cons, updateUnspent_append, ih, foldl_cons]

/-- An output that can be told from a spent one, and that pays to no bad key and to none that is not
looked for. -/
structure CTxOut.Plain (out : CTxOut) : Prop where
  value : out.nValue ≠ -1
  key : out.scriptPubKey.isBadPublicKey = false
  filed : out.scriptPubKey.isUnfiledKey = false

theorem updateUnspent_null (db : Map CAddressUnspentKey CAddressUnspentValue)
    (key : CAddressUnspentKey) : updateUnspent db [(key, .null)] = db.erase key := by
  rfl

theorem updateUnspent_value (h : out.Plain)
    (db : Map CAddressUnspentKey CAddressUnspentValue) (key : CAddressUnspentKey) (nHeight : Nat) :
    updateUnspent db [(key, out.unspentAt nHeight)] = db.insert key (out.unspentAt nHeight) := by
  have hNull : (out.unspentAt nHeight).isNull = false := beq_eq_false_iff_ne.mpr h.value
  unfold updateUnspent Map.setUnless
  rw [foldl_cons, hNull]
  rfl

namespace Indexing

variable {x : Indexing} (hAddress : x.fAddressIndex = true) {out : CTxOut}

include hAddress in
/-- A spent output is taken out from under its address. -/
theorem inputRecords_withdraw (p : TxPlace) (j : Nat) (prevout : COutPoint)
    (hScript : out.scriptPubKey.isPayToScriptHash = false)
    (hKey : out.scriptPubKey.isBadPublicKey = false)
    (hFiled : out.scriptPubKey.isUnfiledKey = false)
    (db : Map CAddressUnspentKey CAddressUnspentValue) :
    updateUnspent db (x.inputRecords p j prevout out).addressUnspentIndex =
      Map.withdraw unspentKey db (x.ownerKey out.scriptPubKey) prevout := by
  have hUnspent := x.connectInput_unspent prevout
    (fun h => absurd h (by rw [hScript]; exact false_ne_true)) hKey hFiled
  have hBoth : (x.connectInput prevout out.scriptPubKey).unspent =
      (x.connectInput prevout out.scriptPubKey).address := by
    unfold connectInput
    repeat' split
    all_goals rfl
  rw [← hUnspent]
  simp only [inputRecords, hAddress, Bool.true_and, decide_eq_true_eq, ← hBoth]
  split
  · exact updateUnspent_null _ _
  · rfl

/-- An output that is created is put in under its address. -/
theorem outputRecords_deposit (p : TxPlace) (k : Nat) (hPlain : out.Plain)
    (hCold : out.scriptPubKey.isColdStakingv2 = false)
    (db : Map CAddressUnspentKey CAddressUnspentValue) :
    updateUnspent db (x.outputRecords p k out).addressUnspentIndex =
      Map.deposit unspentKey db (x.ownerKey out.scriptPubKey) ⟨p.tx.hash, k⟩
        (out.unspentAt p.nHeight) := by
  rw [← x.connectOutput_unspent hCold hPlain.key hPlain.filed, outputRecords]
  cases x.connectOutput out.scriptPubKey with
  | none => rfl
  | some f => exact updateUnspent_value hPlain _ _ _

/-- An output that is removed is taken out from under its address. -/
theorem undoOutputRecords_withdraw (p : TxPlace) (k : Nat) (hPlain : out.Plain)
    (db : Map CAddressUnspentKey CAddressUnspentValue) :
    updateUnspent db (x.undoOutputRecords p k out).addressUnspentIndex =
      Map.withdraw unspentKey db (x.ownerKey out.scriptPubKey) ⟨p.tx.hash, k⟩ := by
  rw [← x.undoFiling_unspent hPlain.key hPlain.filed, undoOutputRecords]
  cases x.undoFiling out.scriptPubKey with
  | none => rfl
  | some f => exact updateUnspent_null _ _

include hAddress in
/-- An output that is restored is put in under its address, with the height of the undo data. -/
theorem undoInputRecords_deposit (p : TxPlace) (j : Nat) (prevout : COutPoint)
    (hPlain : out.Plain) (undoHeight : Nat) (db : Map CAddressUnspentKey CAddressUnspentValue) :
    updateUnspent db (x.undoInputRecords p j prevout out undoHeight).addressUnspentIndex =
      Map.deposit unspentKey db (x.ownerKey out.scriptPubKey) prevout
        (out.unspentAt undoHeight) := by
  rw [← x.undoFiling_unspent hPlain.key hPlain.filed, undoInputRecords, if_pos hAddress]
  cases x.undoFiling out.scriptPubKey with
  | none => rfl
  | some f => exact updateUnspent_value hPlain _ _ _

end Indexing

/-! ## Connecting -/

/-- What `FromTx` keeps. -/
theorem available_fromTx (tx : CTransaction) (nHeight n : Nat) :
    (fromTx tx nHeight).available n = (tx.vout[n]?).filter fun out =>
      !(CScript.isUnspendable out.scriptPubKey || out.isNull) := by
  rw [available, fromTx, cleanup_join, getElem?_map]
  cases tx.vout[n]? with
  | none => rfl
  | some out =>
    rw [Option.map_some, Option.join_some]
    cases h : CScript.isUnspendable out.scriptPubKey || out.isNull with
    | true => rw [if_pos rfl, Option.filter_some_neg (by rw [h]; rfl)]
    | false => rw [if_neg Bool.false_ne_true, Option.filter_some_pos (by rw [h]; rfl)]

variable {x : Indexing} {n : Nat} {view' : CStateView}

/-- A plain output with an address is kept. -/
theorem available_fromTx_owned
    (hPlain : ∀ out ∈ tx.vout, out.Plain) (hOwner : x.ownerKey out.scriptPubKey ≠ none) :
    (fromTx tx nHeight).available n = some out ↔ tx.vout[n]? = some out := by
  rw [available_fromTx, Option.filter_eq_some_iff]
  refine and_iff_left_of_imp fun hOut => ?_
  obtain ⟨key, hKey⟩ := Option.ne_none_iff_exists'.mp hOwner
  have hOne := hPlain out (mem_of_getElem? hOut)
  have hNull : out.isNull = false := beq_eq_false_iff_ne.mpr hOne.value
  rw [x.ownerKey_spendable hOne.filed hKey, hNull]
  rfl

/-! ### The transactions of the chain -/

/-- A transaction of the chain, with the height of its block and its undo data. -/
structure ChainTx where
  nHeight : Nat
  tx : CTransaction
  undo : List CTxInUndo

/-- The transactions of a block come on top of those before it, the last one first. -/
def ChainTx.push (nHeight : Nat) (vtx : List (CTransaction × List CTxInUndo))
    (txs : List ChainTx) : List ChainTx :=
  vtx.foldl (fun txs it => ⟨nHeight, it.1, it.2⟩ :: txs) txs

/-- One of the transactions created the output, in a block of its height. -/
def CreatedIn (txs : List ChainTx) (prevout : COutPoint) (v : CAddressUnspentValue) : Prop :=
  ∃ t ∈ txs, t.tx.hash = prevout.hash ∧ t.tx.vout[prevout.n]? = some v.out ∧
    t.nHeight = v.blockHeight

namespace Indexing

/-- An unspent output is plain and, if it has an address, one of the transactions created it. -/
structure Known (x : Indexing) (txs : List ChainTx) (prevout : COutPoint)
    (v : CAddressUnspentValue) : Prop where
  plain : v.out.Plain
  created : x.owner v ≠ none → CreatedIn txs prevout v

def KnownOutputs (x : Indexing) (txs : List ChainTx) (view : CStateView) : Prop :=
  ∀ prevout v, view.unspentValue prevout = some v → x.Known txs prevout v

/-- The output that an input spent is plain and, if it has an address and the undo data its height,
one of the transactions created it. -/
structure KnownInput (x : Indexing) (txs : List ChainTx) (it : CTxIn × CTxInUndo) : Prop where
  plain : it.2.txout.Plain
  created : x.ownerKey it.2.txout.scriptPubKey ≠ none → it.2.nHeight ≠ 0 →
    CreatedIn txs it.1.prevout (it.2.txout.unspentAt it.2.nHeight)

/-- Every transaction spent outputs of those below it. -/
def KnownUndo (x : Indexing) : List ChainTx → Prop
  | [] => True
  | t :: txs => ((∀ out ∈ t.tx.vout, out.Plain) ∧ ∀ it ∈ t.tx.vin.zip t.undo, x.KnownInput txs it) ∧
    x.KnownUndo txs

variable {txs : List ChainTx} {t : ChainTx}

theorem KnownOutputs.plain (h : x.KnownOutputs txs view) (hOut : view.outputFor prevout = some out) :
    out.Plain := by
  rw [outputFor_eq, Option.map_eq_some_iff] at hOut
  obtain ⟨v, hv, rfl⟩ := hOut
  exact (h prevout v hv).plain

theorem Known.cons {v : CAddressUnspentValue} (h : x.Known txs prevout v) (t : ChainTx) :
    x.Known (t :: txs) prevout v := by
  refine ⟨h.plain, fun hOwner => ?_⟩
  obtain ⟨t', ht', hCreated⟩ := h.created hOwner
  exact ⟨t', mem_cons_of_mem t ht', hCreated⟩

end Indexing

namespace Indexing

variable {x : Indexing} (hAddress : x.fAddressIndex = true) {view view' : CStateView} {p : TxPlace}
  {db : Map CAddressUnspentKey CAddressUnspentValue}

/-- The outputs of the view as they are after `vout` was added. -/
theorem exact_setCoins (hExact : x.Exact db view) (hPlain : ∀ out ∈ p.tx.vout, out.Plain)
    (hCold : ∀ out ∈ p.tx.vout, out.scriptPubKey.isColdStakingv2 = false)
    (hFresh : ∀ n, view.unspentValue ⟨p.tx.hash, n⟩ = none) :
    x.Exact (updateUnspent db ((p.tx.vout.zipIdx.map fun it => x.outputRecords p it.2 it.1).flatMap
          (·.addressUnspentIndex)))
      (view.setCoins p.tx.hash (.fromTx p.tx p.nHeight)) := by
  have hMem : ∀ it ∈ p.tx.vout.zipIdx, p.tx.vout[it.2]? = some it.1 :=
    fun it hIt => mem_zipIdx_iff_getElem?.mp hIt
  have hRecords : updateUnspent db
      ((p.tx.vout.zipIdx.map fun it => x.outputRecords p it.2 it.1).flatMap
        (·.addressUnspentIndex)) =
      p.tx.vout.zipIdx.foldl (fun db it => Map.deposit unspentKey db
        (x.owner (it.1.unspentAt p.nHeight)) ⟨p.tx.hash, it.2⟩ (it.1.unspentAt p.nHeight)) db := by
    rw [updateUnspent_flatMap]
    refine foldl_ext _ _ _ fun db it hIt => ?_
    have hOut := mem_of_getElem? (hMem it hIt)
    exact outputRecords_deposit p it.2 (hPlain it.1 hOut) (hCold it.1 hOut) db
  rw [hRecords]
  refine Filed.congr (fun q => if q.hash = p.tx.hash then
    (p.tx.vout[q.n]?).map fun out => out.unspentAt p.nHeight else view.unspentValue q) ?_ ?_
  · refine Filed.foldl_deposit unspentKey_injective (fun it : CTxOut × Nat => ⟨p.tx.hash, it.2⟩)
      hExact (fun it => it.1.unspentAt p.nHeight) ?_ (fun it _ => hFresh it.2) ?_ ?_
    · have hPlaces : p.tx.vout.zipIdx.map (fun it => (⟨p.tx.hash, it.2⟩ : COutPoint)) =
          (range p.tx.vout.length).map fun n => ⟨p.tx.hash, n⟩ := by
        rw [range_eq_range', ← zipIdx_map_snd, map_map]
        rfl
      rw [hPlaces]
      refine List.Nodup.map (fun n n' h => ?_) nodup_range
      cases h
      rfl
    · intro it hIt
      rw [if_pos rfl, hMem it hIt]
      rfl
    · intro q hq
      split
      case isFalse => rfl
      case isTrue hHash =>
        obtain ⟨txid, n⟩ := q
        obtain rfl : txid = p.tx.hash := hHash
        rw [hFresh n]
        cases hOut : p.tx.vout[n]? with
        | none => rfl
        | some out =>
          exact absurd (mem_map.mpr
            ⟨(out, n), mem_zipIdx_iff_getElem?.mpr hOut, rfl⟩) hq
  · intro q v hOwner
    rw [unspentValue_setCoins]
    split
    · -- an output with an address is not dropped
      simp only [Option.map_eq_some_iff]
      refine exists_congr fun out => and_congr_left fun hEq => ?_
      rw [← hEq] at hOwner
      exact (available_fromTx_owned hPlain hOwner).symm
    · rfl

include hAddress

/-- The inputs of a transaction are spent. -/
theorem exact_spendInputs (hExact : x.Exact db view)
    (hPlain : ∀ prevout out, view.outputFor prevout = some out → out.Plain) {vin : List CTxIn}
    (hScript : ∀ txin ∈ vin, ∀ out, view.outputFor txin.prevout = some out →
      out.scriptPubKey.isPayToScriptHash = false)
    {st : CStateView × List CTxInUndo} (h : vin.foldlM spendInput (view, []) = some st) :
    x.Exact (updateUnspent db
      (((vin.zip (vin.map fun txin => (view.outputFor txin.prevout).getD ⟨-1, []⟩)).zipIdx.map
        fun it => x.inputRecords p it.2 it.1.1.prevout it.1.2).flatMap (·.addressUnspentIndex)))
      st.1 := by
  rw [← map_prod_left_eq_zip]
  generalize hInputs : (vin.map fun txin =>
    (txin, (view.outputFor txin.prevout).getD ⟨-1, []⟩)).zipIdx = inputs
  have hPlaces : inputs.map (fun it => it.1.1.prevout) = vin.map (·.prevout) := by
    calc inputs.map (fun it => it.1.1.prevout)
        = (inputs.map Prod.fst).map fun t => t.1.prevout := by
          rw [map_map]
          rfl
      _ = vin.map (·.prevout) := by
        rw [← hInputs, zipIdx_map_fst, map_map]
        rfl
  -- what an input is recorded with
  have hMem : ∀ it ∈ inputs,
      it.1.1 ∈ vin ∧ it.1.2 = (view.outputFor it.1.1.prevout).getD ⟨-1, []⟩ := by
    intro it hIt
    rw [← hInputs] at hIt
    have hAt := mem_of_getElem? (mem_zipIdx_iff_getElem?.mp hIt)
    obtain ⟨txin, hIn, hEq⟩ := mem_map.mp hAt
    rw [← hEq]
    exact ⟨hIn, rfl⟩
  have hFiled : ∀ it ∈ inputs, it.1.2.scriptPubKey.isPayToScriptHash = false ∧
      it.1.2.scriptPubKey.isBadPublicKey = false ∧ it.1.2.scriptPubKey.isUnfiledKey = false := by
    intro it hIt
    obtain ⟨hIn, hOut⟩ := hMem it hIt
    rw [hOut]
    cases hFor : view.outputFor it.1.1.prevout with
    | none => exact ⟨rfl, rfl, rfl⟩
    | some out =>
      have hOne := hPlain _ out hFor
      exact ⟨hScript _ hIn out hFor, hOne.key, hOne.filed⟩
  rw [updateUnspent_flatMap, foldl_ext _ _ db fun db it hIt =>
    inputRecords_withdraw hAddress p it.2 it.1.1.prevout (hFiled it hIt).1 (hFiled it hIt).2.1
      (hFiled it hIt).2.2 db]
  refine Filed.foldl_withdraw unspentKey_injective (fun it : (CTxIn × CTxOut) × Nat => it.1.1.prevout)
    hExact (fun it => x.ownerKey it.1.2.scriptPubKey) ?_ ?_ ?_
  · intro it hIt v hv
    rw [(hMem it hIt).2, unspentValue_outputFor hv]
    rfl
  · intro it hIt
    rw [spendInputs_unspentValue h, if_pos (mem_map_of_mem (hMem it hIt).1)]
  · intro q hq
    rw [hPlaces] at hq
    rw [spendInputs_unspentValue h, if_neg hq]

end Indexing

/-- The undo data of an input, with the height if this was the last output of its transaction. -/
theorem spendInput_undo {st' : CStateView × List CTxInUndo} {txin : CTxIn}
    (h : spendInput st txin = some st') : ∃ v u, st.1.unspentValue txin.prevout = some v ∧
      v.out = u.txout ∧ (u.nHeight ≠ 0 → v.blockHeight = u.nHeight) ∧ st'.2 = st.2 ++ [u] := by
  unfold spendInput at h
  split at h
  case h_2 => cases h
  case h_1 coins out hCoins hOut =>
    cases h
    have hValue : st.1.unspentValue txin.prevout = some (out.unspentAt coins.nHeight) := by
      rw [CStateView.outputFor, hCoins, Option.bind_some] at hOut
      rw [CStateView.unspentValue, hCoins, Option.bind_some, hOut]
      rfl
    refine ⟨_, _, hValue, ?_, ?_, rfl⟩
    · split <;> rfl
    · split
      · exact fun _ => rfl
      · exact fun hZero => absurd rfl hZero

/-- The output in the undo data of an input is unspent, at the height that it gives. -/
def CStateView.Backs (view : CStateView) (it : CTxIn × CTxInUndo) : Prop :=
  ∃ v, view.unspentValue it.1.prevout = some v ∧ v.out = it.2.txout ∧
    (it.2.nHeight ≠ 0 → v.blockHeight = it.2.nHeight)

/-- What is unspent after some inputs was unspent before, and so was what the undo data holds. -/
theorem spendInputs_origin (h : vin.foldlM spendInput (view, []) = some st) :
    (∀ prevout v, st.1.unspentValue prevout = some v → view.unspentValue prevout = some v) ∧
      ∀ it ∈ vin.zip st.2, view.Backs it := by
  refine (foldlM_option_invariant (fun done (s : CStateView × List CTxInUndo) =>
    done.length = s.2.length ∧
    (∀ prevout v, s.1.unspentValue prevout = some v → view.unspentValue prevout = some v) ∧
      ∀ it ∈ done.zip s.2, view.Backs it) vin (b := (view, []))
    ⟨rfl, fun _ _ hOut => hOut, fun _ hIt => absurd hIt not_mem_nil⟩ ?_ h).2
  rintro done txin rest s s' - ⟨hLength, hOuts, hUndo⟩ hStep
  obtain ⟨v, u, hValue, hOut, hHeight, hList⟩ := spendInput_undo hStep
  refine ⟨by rw [hList, length_append, length_append, hLength]; rfl, fun prevout v' hv' => ?_,
    fun it hIt => ?_⟩
  · rw [spendInput_unspentValue hStep] at hv'
    split at hv'
    · cases hv'
    · exact hOuts prevout v' hv'
  · rw [hList, zip_append hLength, mem_append] at hIt
    rcases hIt with hOld | hNew
    · exact hUndo it hOld
    · obtain rfl := mem_singleton.mp hNew
      exact ⟨v, hOuts _ v hValue, hOut, hHeight⟩

/-- The outputs that an input may spend: one that is unspent, and those that transactions of the
block create. -/
def CStateView.offers (view : CStateView) (vtx : List CTransaction) (prevout : COutPoint) :
    List CTxOut :=
  (view.outputFor prevout).toList ++
    vtx.filterMap fun tx => if tx.hash = prevout.hash then tx.vout[prevout.n]? else none

theorem mem_offers {vtx : List CTransaction} :
    out ∈ view.offers vtx prevout ↔ view.outputFor prevout = some out ∨
      ∃ tx ∈ vtx, tx.hash = prevout.hash ∧ tx.vout[prevout.n]? = some out := by
  simp only [CStateView.offers, mem_append, Option.mem_toList, mem_filterMap,
    Option.ite_none_right_eq_some]

/-- **One transaction.** What is unspent after it was unspent before it, or is one of its
outputs. -/
theorem updateCoins_origin_unspent
    {undo : List CTxInUndo} (h : updateCoins view tx nHeight = some (view', undo)) :
    (∀ prevout v, view'.unspentValue prevout = some v → view.unspentValue prevout = some v ∨
      tx.hash = prevout.hash ∧ tx.vout[prevout.n]? = some v.out ∧ nHeight = v.blockHeight) ∧
    ∀ it ∈ tx.vin.zip undo, view.Backs it := by
  unfold updateCoins at h
  rw [Option.map_eq_some_iff] at h
  obtain ⟨st, hSt, hEq⟩ := h
  cases hEq
  have hSpent : (∀ prevout v, st.1.unspentValue prevout = some v →
      view.unspentValue prevout = some v) ∧
      ∀ it ∈ tx.vin.zip st.2, view.Backs it := by
    split at hSt
    · cases hSt
      refine ⟨fun _ _ hOut => hOut, fun it hIt => ?_⟩
      rw [zip_nil_right] at hIt
      cases hIt
    · exact spendInputs_origin hSt
  refine ⟨fun prevout v hv => ?_, hSpent.2⟩
  rw [unspentValue_setCoins] at hv
  split at hv
  case isTrue hHash =>
    obtain ⟨out, hOut, rfl⟩ := Option.map_eq_some_iff.mp hv
    rw [available_fromTx, Option.filter_eq_some_iff] at hOut
    exact Or.inr ⟨hHash.symm, hOut.1, rfl⟩
  case isFalse => exact Or.inl (hSpent.1 prevout v hv)

theorem updateCoins_offers
    {undo : List CTxInUndo} (h : updateCoins view tx nHeight = some (view', undo))
    (hOut : view'.outputFor prevout = some out) : out ∈ view.offers [tx] prevout := by
  rw [outputFor_eq, Option.map_eq_some_iff] at hOut
  obtain ⟨v, hv, rfl⟩ := hOut
  rw [mem_offers]
  rcases (updateCoins_origin_unspent h).1 prevout v hv with hOld | ⟨hHash, hCreated, -⟩
  · exact Or.inl (unspentValue_outputFor hOld)
  · exact Or.inr ⟨tx, mem_singleton_self tx, hHash, hCreated⟩

/-- **What is known after a transaction.** Its outputs come on top, and what it spent was known. -/
theorem Indexing.updateCoins_known {x : Indexing} {txs : List ChainTx} {undo : List CTxInUndo}
    (h : updateCoins view tx nHeight = some (view', undo)) (hKnown : x.KnownOutputs txs view)
    (hPlain : ∀ out ∈ tx.vout, out.Plain) :
    x.KnownOutputs (⟨nHeight, tx, undo⟩ :: txs) view' ∧
      ∀ it ∈ tx.vin.zip undo, x.KnownInput txs it := by
  obtain ⟨hOrigin, hUndo⟩ := updateCoins_origin_unspent h
  refine ⟨fun prevout v hv => ?_, fun it hIt => ?_⟩
  · rcases hOrigin prevout v hv with hOld | hCreated
    · exact (hKnown prevout v hOld).cons _
    · exact ⟨hPlain v.out (mem_of_getElem? hCreated.2.1), fun _ => ⟨_, mem_cons_self, hCreated⟩⟩
  · obtain ⟨v, hv, hOut, hHeight⟩ := hUndo it hIt
    have hSpent := hKnown it.1.prevout v hv
    refine ⟨hOut ▸ hSpent.plain, fun hOwner hNe => ?_⟩
    have hSame : it.2.txout.unspentAt it.2.nHeight = v := by
      rw [← hOut, ← hHeight hNe]
      rfl
    rw [hSame]
    rw [← hOut] at hOwner
    exact hSpent.created hOwner

/-- **Condition for connecting.** The transactions are new; no output that is created pays to a cold
staking address with a voting key, to a bad key or to one in a form that `ConnectBlock` does not
look for; and no output that is spent pays to a script hash. -/
@[mk_iff]
structure CBlock.Files (block : CBlock) (view : CStateView) : Prop where
  fresh : FreshTxs view block.vtx
  outputs : ∀ tx ∈ block.vtx, ∀ out ∈ tx.vout, out.scriptPubKey.isColdStakingv2 = false ∧
    out.scriptPubKey.isBadPublicKey = false ∧ out.scriptPubKey.isUnfiledKey = false
  inputs : ∀ tx ∈ block.vtx, ∀ txin ∈ tx.vin, ∀ out ∈ view.offers block.vtx txin.prevout,
    out.scriptPubKey.isPayToScriptHash = false

instance (block : CBlock) (view : CStateView) : Decidable (block.Files view) :=
  decidable_of_iff _ (block.files_iff view).symm

/-- The same for some transactions, whose outputs have values. -/
structure FilesTxs (view : CStateView) (vtx : List CTransaction) : Prop where
  fresh : ∀ tx ∈ vtx, ∀ n, view.outputFor ⟨tx.hash, n⟩ = none
  distinct : (vtx.map (·.hash)).Nodup
  outputs : ∀ tx ∈ vtx, ∀ out ∈ tx.vout, out.Plain ∧ out.scriptPubKey.isColdStakingv2 = false
  inputs : ∀ tx ∈ vtx, ∀ txin ∈ tx.vin, ∀ out ∈ view.offers vtx txin.prevout,
    out.scriptPubKey.isPayToScriptHash = false

theorem CBlock.Files.txs {block : CBlock} (h : block.Files view)
    (hValues : ∀ tx ∈ block.vtx, ∀ out ∈ tx.vout, out.nValue ≠ -1) : FilesTxs view block.vtx := by
  refine ⟨fun tx hTx n => ?_, h.fresh.distinct, fun tx hTx out hOut => ?_, h.inputs⟩
  · rw [CStateView.outputFor, h.fresh.fresh tx hTx]
    rfl
  · have hScript := h.outputs tx hTx out hOut
    exact ⟨⟨hValues tx hTx out hOut, hScript.2.1, hScript.2.2⟩, hScript.1⟩

/-- What holds of the transactions after the first. -/
theorem FilesTxs.tail {rest : List CTransaction}
    (h : FilesTxs view (tx :: rest)) (hOrigin : ∀ prevout out, view'.outputFor prevout = some out →
      out ∈ view.offers [tx] prevout) :
    FilesTxs view' rest := by
  have hDistinct := h.distinct
  rw [map_cons, nodup_cons] at hDistinct
  refine ⟨?_, hDistinct.2, fun t ht => h.outputs t (mem_cons_of_mem tx ht), ?_⟩
  · intro t ht n
    cases hOut : view'.outputFor ⟨t.hash, n⟩ with
    | none => rfl
    | some out =>
      rcases mem_offers.mp (hOrigin _ out hOut) with hOld | ⟨t', ht', hHash, -⟩
      · rw [h.fresh t (mem_cons_of_mem tx ht) n] at hOld
        cases hOld
      · obtain rfl := mem_singleton.mp ht'
        exact absurd (mem_map_of_mem ht) (hHash ▸ hDistinct.1)
  · intro t ht txin hIn out hOffers
    refine h.inputs t (mem_cons_of_mem tx ht) txin hIn out (mem_offers.mpr ?_)
    rcases mem_offers.mp hOffers with hOut | ⟨t', ht', hCreates⟩
    · rcases mem_offers.mp (hOrigin _ out hOut) with hOld | ⟨t', ht', hCreates⟩
      · exact Or.inl hOld
      · obtain rfl := mem_singleton.mp ht'
        exact Or.inr ⟨t', mem_cons_self, hCreates⟩
    · exact Or.inr ⟨t', mem_cons_of_mem tx ht', hCreates⟩

namespace Indexing

variable {x : Indexing} (hAddress : x.fAddressIndex = true) {view view' : CStateView}
  {db : Map CAddressUnspentKey CAddressUnspentValue} {txs : List ChainTx}

include hAddress

/-- **Connecting a transaction.** -/
theorem updateCoins_exact {p : TxPlace} {rest : List CTransaction} {undo : List CTxInUndo}
    (h : updateCoins view p.tx p.nHeight = some (view', undo)) (hExact : x.Exact db view)
    (hKnown : x.KnownOutputs txs view) (hFiles : FilesTxs view (p.tx :: rest)) :
    x.Exact (updateUnspent db
      ((x.txRecords p (spentOutputs view p.tx)).flatMap (·.addressUnspentIndex))) view' := by
  unfold updateCoins at h
  rw [Option.map_eq_some_iff] at h
  obtain ⟨st, hSt, hEq⟩ := h
  cases hEq
  have hOutputs := hFiles.outputs p.tx mem_cons_self
  rw [txRecords, hAddress, flatMap_append, updateUnspent_append]
  have hSpent : x.Exact (updateUnspent db
      (((p.tx.vin.zip (spentOutputs view p.tx)).zipIdx.map fun it =>
        x.inputRecords p it.2 it.1.1.prevout it.1.2).flatMap (·.addressUnspentIndex))) st.1 ∧
      ∀ prevout v, st.1.unspentValue prevout = some v → view.unspentValue prevout = some v := by
    unfold spentOutputs
    cases hCb : p.tx.isCoinBase with
    | true =>
      rw [hCb] at hSt
      cases hSt
      rw [if_pos rfl, zip_nil_right]
      exact ⟨hExact, fun _ _ hOut => hOut⟩
    | false =>
      rw [hCb] at hSt
      refine ⟨exact_spendInputs hAddress hExact (fun _ _ => hKnown.plain) ?_ hSt,
        (spendInputs_origin hSt).1⟩
      exact fun txin hIn out hOut =>
        hFiles.inputs p.tx mem_cons_self txin hIn out (mem_offers.mpr (Or.inl hOut))
  refine exact_setCoins hSpent.1 (fun out hOut => (hOutputs out hOut).1)
    (fun out hOut => (hOutputs out hOut).2) fun n => ?_
  cases hValue : st.1.unspentValue ⟨p.tx.hash, n⟩ with
  | none => rfl
  | some v =>
    have hOld := hSpent.2 _ v hValue
    rw [unspentValue_none.mpr (hFiles.fresh p.tx mem_cons_self n)] at hOld
    cases hOld

/-- **Connecting the transactions of a block.** -/
theorem connectCoins_exact {nHeight : Nat} {vtx : List CTransaction} {undos : List (List CTxInUndo)}
    (h : connectCoins nHeight vtx view = some (view', undos)) (k : Nat) (hExact : x.Exact db view)
    (hKnown : x.KnownOutputs txs view) (hUndo : x.KnownUndo txs) (hFiles : FilesTxs view vtx) :
    x.Exact (updateUnspent db
        ((x.connectRecords nHeight (vtx.zipIdx k) view).flatMap (·.addressUnspentIndex))) view' ∧
      x.KnownOutputs (ChainTx.push nHeight (vtx.zip undos) txs) view' ∧
      x.KnownUndo (ChainTx.push nHeight (vtx.zip undos) txs) := by
  induction vtx generalizing view db undos k txs with
  | nil =>
    cases h
    exact ⟨hExact, hKnown, hUndo⟩
  | cons tx rest ih =>
    rw [connectCoins, Option.bind_eq_some_iff] at h
    obtain ⟨⟨view1, undo⟩, hTx, h⟩ := h
    rw [Option.map_eq_some_iff] at h
    obtain ⟨⟨view2, undos'⟩, hRest, hEq⟩ := h
    cases hEq
    have hPlain : ∀ out ∈ tx.vout, out.Plain :=
      fun out hOut => (hFiles.outputs tx mem_cons_self out hOut).1
    obtain ⟨hKnown1, hInputs⟩ := updateCoins_known hTx hKnown hPlain
    have hExact1 := updateCoins_exact (p := ⟨nHeight, k, tx⟩) hAddress hTx hExact hKnown hFiles
    obtain ⟨hDone, hKnown2⟩ := ih hRest (k + 1) hExact1 hKnown1 ⟨⟨hPlain, hInputs⟩, hUndo⟩
      (hFiles.tail fun _ _ => updateCoins_offers hTx)
    refine ⟨?_, hKnown2⟩
    rw [zipIdx_cons, connectRecords, hTx, flatMap_append, updateUnspent_append]
    exact hDone

end Indexing

/-! ## Disconnecting -/

theorem CCoins.available_of_equal {a b : CCoins} (h : a.equal b = true) (n : Nat) :
    a.available n = b.available n := by
  simp only [equal, or_eq_true, and_eq_true, beq_iff_eq] at h
  rcases h with ⟨ha, hb⟩ | ⟨-, hVout⟩
  · rw [available_of_isPruned ha, available_of_isPruned hb]
  · rw [available, hVout, available]

theorem CCoins.available_clearUnspendable (coins : CCoins) (n : Nat) :
    coins.clearUnspendable.available n = (coins.available n).filter fun out =>
      !CScript.isUnspendable out.scriptPubKey := by
  rw [available, clearUnspendable, cleanup_join, getElem?_map, available]
  cases coins.vout[n]? with
  | none => rfl
  | some o => rfl

/-- The outputs of the transaction are there as in the block, up to those that can not be spent. -/
theorem removeOutputs_available (h : (removeOutputs nHeight tx view).1 = true) (n : Nat) :
    ((view.coinsOf tx.hash).available n).filter (fun out =>
      !CScript.isUnspendable out.scriptPubKey) = (fromTx tx nHeight).available n := by
  rw [← available_of_equal h n, ← available_clearUnspendable]
  split <;> rfl

/-- An output with an address that is there is in the block. -/
theorem removeOutputs_owned
    (h : (removeOutputs nHeight tx view).1 = true) (hPlain : ∀ out ∈ tx.vout, out.Plain)
    (hFiled : out.scriptPubKey.isUnfiledKey = false) (hOwner : x.ownerKey out.scriptPubKey ≠ none) :
    (view.coinsOf tx.hash).available n = some out ↔ tx.vout[n]? = some out := by
  rw [← available_fromTx_owned hPlain hOwner, ← removeOutputs_available h, Option.filter_eq_some_iff]
  obtain ⟨key, hKey⟩ := Option.ne_none_iff_exists'.mp hOwner
  rw [x.ownerKey_spendable hFiled hKey]
  exact (and_iff_left rfl).symm

/-- The clean flag was set before. -/
theorem restoreInputs_clean {vprevout : List CTxInUndo} {st : Bool × CStateView}
    (h : (restoreInputs vin vprevout st).1 = true) : st.1 = true := by
  unfold restoreInputs at h
  generalize vin.zip vprevout = l at h
  induction l with
  | nil => exact h
  | cons it rest ih =>
    rw [foldr_cons, and_eq_true] at h
    exact ih h.1

theorem disconnectTx_clean {it : CTransaction × Option (List CTxInUndo)}
    {st st' : Bool × CStateView} (h : disconnectTx nHeight it st = some st')
    (hClean : st'.1 = true) : st.1 = true ∧ (removeOutputs nHeight it.1 st.2).1 = true := by
  rw [← and_eq_true]
  unfold disconnectTx at h
  split at h
  · rw [← Option.some.inj h] at hClean
    exact hClean
  · split at h
    · cases h
    · rw [← Option.some.inj h] at hClean
      exact restoreInputs_clean hClean

/-- **A restored output.** It was not there, and now has the height of the undo data, if that has
one. -/
theorem applyTxInUndo_unspentValue {undo : CTxInUndo}
    (h : (applyTxInUndo undo view prevout).1 = true) :
    view.unspentValue prevout = none ∧ ∃ nHeight, (undo.nHeight ≠ 0 → nHeight = undo.nHeight) ∧
      (applyTxInUndo undo view prevout).2.unspentValue =
        Function.update view.unspentValue prevout (some (undo.txout.unspentAt nHeight)) := by
  -- the entry that the output is put into, and what it has of the same transaction
  obtain ⟨coins, hSet, hNone, hHeight, hOthers⟩ : ∃ coins : CCoins,
      (applyTxInUndo undo view prevout).2 = view.setCoins prevout.hash { coins with
        vout := (resize coins.vout (prevout.n + 1)).set prevout.n (some undo.txout) } ∧
      view.unspentValue prevout = none ∧ (undo.nHeight ≠ 0 → coins.nHeight = undo.nHeight) ∧
      ∀ n, view.unspentValue ⟨prevout.hash, n⟩ =
        (coins.available n).map fun out => out.unspentAt coins.nHeight := by
    unfold applyTxInUndo applyUndo at h ⊢
    by_cases hZero : undo.nHeight ≠ 0
    · rw [if_pos hZero] at h ⊢
      rw [and_eq_true] at h
      have hGone : ∀ n, view.unspentValue ⟨prevout.hash, n⟩ = none := by
        intro n
        rw [unspentValue_none, ← CStateView.coinsOf_available]
        exact available_of_isPruned h.1 n
      exact ⟨_, rfl, hGone prevout.n, fun _ => rfl, fun n => hGone n⟩
    · rw [if_neg hZero] at h ⊢
      rw [and_eq_true, Option.isNone_iff_eq_none, CStateView.coinsOf_available] at h
      refine ⟨_, rfl, unspentValue_none.mpr h.2, fun hNe => absurd hNe hZero, fun n => ?_⟩
      unfold CStateView.unspentValue CStateView.coinsOf
      cases view.coins[prevout.hash]? <;> rfl
  refine ⟨hNone, coins.nHeight, hHeight, funext fun q => ?_⟩
  rw [hSet, unspentValue_setCoins, available_set_resize]
  obtain ⟨txid, n⟩ := q
  by_cases hHash : txid = prevout.hash
  · subst hHash
    rw [if_pos rfl]
    by_cases hIndex : n = prevout.n
    · subst hIndex
      rw [if_pos rfl, update_self]
      rfl
    · rw [if_neg hIndex, update_of_ne (fun hEq => hIndex (congrArg COutPoint.n hEq)), hOthers]
  · rw [if_neg hHash, update_of_ne (fun hEq => hHash (congrArg COutPoint.hash hEq))]

namespace Indexing

variable {x : Indexing} {view : CStateView} {p : TxPlace} {txs : List ChainTx}
  {db : Map CAddressUnspentKey CAddressUnspentValue}

/-- **The outputs of a transaction are removed.** -/
theorem removeOutputs_exact (h : (removeOutputs p.nHeight p.tx view).1 = true)
    (hExact : x.Exact db view) (hKnown : x.KnownOutputs txs view)
    (hPlain : ∀ out ∈ p.tx.vout, out.Plain) :
    x.Exact (updateUnspent db
      ((p.tx.vout.zipIdx.reverse.map fun it => x.undoOutputRecords p it.2 it.1).flatMap
        (·.addressUnspentIndex))) (removeOutputs p.nHeight p.tx view).2 := by
  have hMem : ∀ it ∈ p.tx.vout.zipIdx.reverse, p.tx.vout[it.2]? = some it.1 :=
    fun it hIt => mem_zipIdx_iff_getElem?.mp (mem_reverse.mp hIt)
  rw [updateUnspent_flatMap, foldl_ext _ _ db fun db it hIt =>
    undoOutputRecords_withdraw p it.2 (hPlain it.1 (mem_of_getElem? (hMem it hIt))) db]
  -- an output that is there with an address is one of the transaction's
  have hOwned : ∀ n v, view.unspentValue ⟨p.tx.hash, n⟩ = some v → x.owner v ≠ none →
      p.tx.vout[n]? = some v.out := by
    intro n v hv hOwner
    have hOut := unspentValue_outputFor hv
    rw [← CStateView.coinsOf_available] at hOut
    exact (removeOutputs_owned h hPlain (hKnown _ v hv).plain.filed hOwner).mp hOut
  refine Filed.congr (fun q =>
    if q ∈ p.tx.vout.zipIdx.reverse.map (fun it => (⟨p.tx.hash, it.2⟩ : COutPoint)) then none
    else view.unspentValue q) ?_ ?_
  · refine Filed.foldl_withdraw unspentKey_injective (fun it : CTxOut × Nat => ⟨p.tx.hash, it.2⟩)
      hExact (fun it => x.ownerKey it.1.scriptPubKey) ?_ ?_ ?_
    · intro it hIt v hv
      by_cases hOwner : x.owner v = none
      · rw [hOwner, eq_comm]
        by_contra hOut
        have hFiled := (hPlain it.1 (mem_of_getElem? (hMem it hIt))).filed
        have hThere := (removeOutputs_owned h hPlain hFiled hOut).mpr (hMem it hIt)
        rw [CStateView.coinsOf_available view ⟨p.tx.hash, it.2⟩, unspentValue_outputFor hv] at hThere
        rw [← Option.some.inj hThere] at hOut
        exact hOut hOwner
      · have hOut := hOwned it.2 v hv hOwner
        rw [hMem it hIt] at hOut
        rw [Option.some.inj hOut]
        rfl
    · exact fun it hIt => if_pos (mem_map_of_mem hIt)
    · exact fun q hq => if_neg hq
  · intro q v hOwner
    rw [removeOutputs, unspentValue_setCoins]
    by_cases hHash : q.hash = p.tx.hash
    · rw [if_pos hHash]
      constructor
      · intro hv
        split at hv
        · cases hv
        case isFalse hNot =>
          obtain ⟨txid, n⟩ := q
          obtain rfl : txid = p.tx.hash := hHash
          exact absurd (mem_map.mpr ⟨(_, n), mem_reverse.mpr
            (mem_zipIdx_iff_getElem?.mpr (hOwned n v hv hOwner)), rfl⟩) hNot
      · intro hv
        cases hv
    · rw [if_neg hHash, if_neg]
      intro hPlace
      obtain ⟨it, -, rfl⟩ := mem_map.mp hPlace
      exact hHash rfl

/-- What is left when the outputs of the last transaction are removed. -/
theorem KnownOutputs.removeOutputs {t : ChainTx} (h : x.KnownOutputs (t :: txs) view) :
    x.KnownOutputs txs (removeOutputs t.nHeight t.tx view).2 := by
  intro prevout v hv
  rw [Electrum.removeOutputs, unspentValue_setCoins] at hv
  split at hv
  · cases hv
  case isFalse hHash =>
    have hOld := h prevout v hv
    refine ⟨hOld.plain, fun hOwner => ?_⟩
    obtain ⟨t', ht', hSame, hCreated⟩ := hOld.created hOwner
    rcases mem_cons.mp ht' with rfl | hBelow
    · exact absurd hSame.symm hHash
    · exact ⟨t', hBelow, hSame, hCreated⟩

/-- The undo data has the height of every output with an address. -/
def Restorable (x : Indexing) (undo : List CTxInUndo) : Prop :=
  ∀ u ∈ undo, x.ownerKey u.txout.scriptPubKey ≠ none → u.nHeight ≠ 0

instance (x : Indexing) (undo : List CTxInUndo) : Decidable (x.Restorable undo) :=
  inferInstanceAs (Decidable (∀ u ∈ undo, _ → _))

variable (hAddress : x.fAddressIndex = true)

include hAddress

/-- **One output is restored.** -/
theorem applyTxInUndo_exact {undo : CTxInUndo} {prevout : COutPoint}
    (h : (applyTxInUndo undo view prevout).1 = true) (hExact : x.Exact db view)
    (hPlain : undo.txout.Plain)
    (hHeight : x.ownerKey undo.txout.scriptPubKey ≠ none → undo.nHeight ≠ 0) (j : Nat) :
    x.Exact (updateUnspent db
      (x.undoInputRecords p j prevout undo.txout undo.nHeight).addressUnspentIndex)
      (applyTxInUndo undo view prevout).2 := by
  obtain ⟨hNone, nHeight, hSame, hValue⟩ := applyTxInUndo_unspentValue h
  rw [undoInputRecords_deposit hAddress p j prevout hPlain]
  unfold Exact
  rw [hValue]
  refine (Filed.deposit unspentKey_injective hExact hNone
    (undo.txout.unspentAt undo.nHeight)).congr _ ?_
  intro q v hOwner
  by_cases hPlace : q = prevout
  · rw [hPlace, update_self, update_self]
    -- with an address the heights agree, without one neither value is `v`
    by_cases hOwned : x.ownerKey undo.txout.scriptPubKey = none
    · constructor <;> (intro hEq; cases hEq; exact absurd hOwned hOwner)
    · rw [hSame (hHeight hOwned)]
  · rw [update_of_ne hPlace, update_of_ne hPlace]

variable {fClean : Bool} {view' : CStateView}

/-- **The inputs of a transaction are restored.** -/
theorem restoreInputs_exact {l : List (CTxIn × CTxInUndo)} (k : Nat)
    (h : (l.foldr undoInput (fClean, view)).1 = true)
    (hExact : x.Exact db view) (hKnown : x.KnownOutputs txs view)
    (hUndo : ∀ it ∈ l, x.KnownInput txs it ∧
      (x.ownerKey it.2.txout.scriptPubKey ≠ none → it.2.nHeight ≠ 0)) :
    x.Exact (updateUnspent db (((l.zipIdx k).reverse.map fun it =>
        x.undoInputRecords p it.2 it.1.1.prevout it.1.2.txout it.1.2.nHeight).flatMap
          (·.addressUnspentIndex)))
        (l.foldr undoInput (fClean, view)).2 ∧
      x.KnownOutputs txs (l.foldr undoInput (fClean, view)).2 := by
  induction l generalizing k with
  | nil => exact ⟨hExact, hKnown⟩
  | cons it rest ih =>
    rw [foldr_cons, undoInput] at h ⊢
    rw [and_eq_true] at h
    obtain ⟨hRest, hOuts⟩ := ih (k + 1) h.1 fun it' hIt' =>
      hUndo it' (mem_cons_of_mem it hIt')
    obtain ⟨hInput, hHeight⟩ := hUndo it mem_cons_self
    refine ⟨?_, ?_⟩
    · rw [zipIdx_cons, reverse_cons, map_append, flatMap_append,
        updateUnspent_append, map_singleton, flatMap_singleton]
      exact applyTxInUndo_exact hAddress h.2 hRest hInput.plain hHeight k
    · intro prevout v hv
      obtain ⟨-, nHeight, hSame, hValue⟩ := applyTxInUndo_unspentValue h.2
      rw [hValue] at hv
      by_cases hPlace : prevout = it.1.prevout
      · rw [hPlace, update_self] at hv
        cases hv
        refine ⟨hInput.plain, fun hOwner => ?_⟩
        -- with an address the output has its height back
        have hNe := hHeight hOwner
        rw [hPlace, hSame hNe]
        exact hInput.created hOwner hNe
      · rw [update_of_ne hPlace] at hv
        exact hOuts prevout v hv

/-- **Disconnecting a transaction.** -/
theorem disconnectTx_exact {nHeight : Nat} (it : BlockItem)
    (h : disconnectTx nHeight it.1 (fClean, view) = some (true, view')) (hExact : x.Exact db view)
    (hKnown : x.KnownOutputs (⟨nHeight, it.1.1, it.1.2.getD []⟩ :: txs) view)
    (hUndo : x.KnownUndo (⟨nHeight, it.1.1, it.1.2.getD []⟩ :: txs))
    (hHeights : ∀ undo, it.1.2 = some undo → x.Restorable undo) :
    x.Exact (updateUnspent db
        ((x.undoTxRecords (place nHeight it) it.1.2).flatMap (·.addressUnspentIndex))) view' ∧
      x.KnownOutputs txs view' := by
  obtain ⟨⟨tx, undo⟩, i⟩ := it
  have hFlag := (disconnectTx_clean h rfl).2
  have hRemoved := removeOutputs_exact (p := ⟨nHeight, i, tx⟩) hFlag hExact hKnown hUndo.1.1
  have hRest := hKnown.removeOutputs
  unfold disconnectTx at h
  rw [undoTxRecords, if_pos hAddress, flatMap_append, updateUnspent_append]
  cases undo with
  | none =>
    obtain ⟨-, rfl⟩ := Prod.mk.inj (Option.some.inj h)
    rw [Option.getD_none, zip_nil_right]
    exact ⟨hRemoved, hRest⟩
  | some vprevout =>
    dsimp only at h
    split at h
    · cases h
    · have hRestored := Option.some.inj h
      unfold restoreInputs at hRestored
      have hInputs : ∀ it ∈ tx.vin.zip vprevout, x.KnownInput txs it ∧
          (x.ownerKey it.2.txout.scriptPubKey ≠ none → it.2.nHeight ≠ 0) :=
        fun it hIt => ⟨hUndo.1.2 it hIt, hHeights vprevout rfl it.2 (of_mem_zip hIt).2⟩
      have hDone := restoreInputs_exact hAddress (p := ⟨nHeight, i, tx⟩) 0
        (congrArg Prod.fst hRestored) hRemoved hRest hInputs
      rw [hRestored] at hDone
      exact hDone

/-- **Disconnecting the transactions of a block.** -/
theorem disconnectTxs_exact {nHeight : Nat} {l : List (CTransaction × Option (List CTxInUndo))}
    (k : Nat) (h : l.foldrM (disconnectTx nHeight) (true, view) = some (true, view'))
    (hExact : x.Exact db view)
    (hKnown : x.KnownOutputs (ChainTx.push nHeight (l.map fun it => (it.1, it.2.getD [])) txs) view)
    (hUndo : x.KnownUndo (ChainTx.push nHeight (l.map fun it => (it.1, it.2.getD [])) txs))
    (hHeights : ∀ it ∈ l, ∀ undo, it.2 = some undo → x.Restorable undo) :
    x.Exact (updateUnspent db (((l.zipIdx k).reverse.flatMap fun it =>
      x.undoTxRecords (place nHeight it) it.1.2).flatMap (·.addressUnspentIndex))) view' ∧
      x.KnownOutputs txs view' ∧ x.KnownUndo txs := by
  induction l generalizing view' k txs with
  | nil =>
    cases h
    exact ⟨hExact, hKnown, hUndo⟩
  | cons it rest ih =>
    rw [foldrM_cons, Option.bind_eq_bind, Option.bind_eq_some_iff] at h
    obtain ⟨⟨fClean, mid⟩, hRest, hTx⟩ := h
    obtain rfl : fClean = true := (disconnectTx_clean hTx rfl).1
    -- the first transaction is the last one to go
    obtain ⟨hMid, hOuts, hBelow⟩ := ih (k + 1) hRest hKnown hUndo
      fun it' hIt' => hHeights it' (mem_cons_of_mem it hIt')
    rw [zipIdx_cons, reverse_cons, flatMap_append, flatMap_append,
      updateUnspent_append, flatMap_singleton]
    obtain ⟨hDone, hLeft⟩ := disconnectTx_exact hAddress (it, k) hTx hMid hOuts hBelow
      (hHeights it mem_cons_self)
    exact ⟨hDone, hLeft, hBelow.2⟩

end Indexing

end Electrum
