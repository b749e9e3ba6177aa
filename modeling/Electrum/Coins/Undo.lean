import Electrum.Validation.Values

/-!
# Undoing a block in the coin view

`UpdateCoins` saves the data of a transaction only with its last spent output, and the spent
outputs at the end of an entry are trimmed.  The coin part of `DisconnectBlock` replays the
undo data backwards.  `Restores` says what comes back: outputs, height, version and the mark
of a coinbase; the mark of a coinstake is not part of the undo data and may be lost.

Versions are compared by a relation `V`, so that the rules also serve for entries that went
through the database, which does not keep negative versions.

Main results:
* `restoreInputs_spent` — the inputs of a transaction come back
* `disconnectTx_updateCoins` — a transaction comes undone
* `disconnectCoins_connectCoins` — a block comes undone, and the clean flag stays set
-/

namespace Electrum

open CStateView List

/-! ## The coin part of `DisconnectBlock` -/

namespace CCoins

/-- `CCoins()`, which is also what `Clear` leaves. -/
def empty : CCoins := ⟨false, false, [], 0, 0⟩

def clearUnspendable (coins : CCoins) : CCoins :=
  { coins with vout := cleanup (coins.vout.map fun o =>
      o.filter fun out => !CScript.isUnspendable out.scriptPubKey) }

/-- `operator==`; it does not compare `fCoinStake`. -/
def equal (a b : CCoins) : Bool :=
  (a.isPruned && b.isPruned) ||
    (a.fCoinBase == b.fCoinBase && a.nHeight == b.nHeight && a.nVersion == b.nVersion &&
      a.vout == b.vout)

/-- `vout.resize(n)` for a vector that is not longer; the new outputs are null. -/
def resize (vout : List (Option CTxOut)) (n : Nat) : List (Option CTxOut) :=
  vout ++ replicate (n - vout.length) none

/-- `ApplyTxInUndo` on the entry of the spent transaction. -/
def applyUndo (undo : CTxInUndo) (n : Nat) (coins : CCoins) : Bool × CCoins :=
  -- undo data with a height belongs to the last output that was spent
  let st : Bool × CCoins := if undo.nHeight ≠ 0 then
      (coins.isPruned, { empty with
        fCoinBase := undo.fCoinBase, nHeight := undo.nHeight, nVersion := undo.nVersion })
    else (!coins.isPruned, coins)
  (st.1 && (st.2.available n).isNone,
    { st.2 with vout := (resize st.2.vout (n + 1)).set n (some undo.txout) })

end CCoins

/-- The entry of a transaction, empty if there is none. -/
def CStateView.coinsOf (view : CStateView) (txid : UInt256) : CCoins :=
  (view.coins[txid]?).getD .empty

def applyTxInUndo (undo : CTxInUndo) (view : CStateView) (out : COutPoint) : Bool × CStateView :=
  let r := (view.coinsOf out.hash).applyUndo undo out.n
  (r.1, view.setCoins out.hash r.2)

/-- The outputs of a transaction must be there as in the block, and are removed. -/
def removeOutputs (nHeight : Nat) (tx : CTransaction) (view : CStateView) : Bool × CStateView :=
  let outs := (view.coinsOf tx.hash).clearUnspendable
  let outsBlock := CCoins.fromTx tx nHeight
  let outs := if outsBlock.nVersion < 0 then { outs with nVersion := outsBlock.nVersion } else outs
  (outs.equal outsBlock, view.setCoins tx.hash .empty)

/-- `ApplyTxInUndo` for every input, last input first. -/
def restoreInputs (vin : List CTxIn) (vprevout : List CTxInUndo) (st : Bool × CStateView) :
    Bool × CStateView :=
  (vin.zip vprevout).foldr (fun it st =>
    let r := applyTxInUndo it.2 st.2 it.1.prevout
    (st.1 && r.1, r.2)) st

/-- `ApplyTxInUndo` for one of them. -/
abbrev undoInput (it : CTxIn × CTxInUndo) (st : Bool × CStateView) : Bool × CStateView :=
  let r := applyTxInUndo it.2 st.2 it.1.prevout
  (st.1 && r.1, r.2)

/-- The coin part of `DisconnectBlock` for one transaction.  The coinbase, which is at the front
of the block, has no undo data. -/
def disconnectTx (nHeight : Nat) (it : CTransaction × Option (List CTxInUndo))
    (st : Bool × CStateView) : Option (Bool × CStateView) :=
  let r := removeOutputs nHeight it.1 st.2
  match it.2 with
  | none => some (st.1 && r.1, r.2)
  | some vprevout =>
    if vprevout.length ≠ it.1.vin.length then none
    else some (restoreInputs it.1.vin vprevout (st.1 && r.1, r.2))

/-- The coin part of `DisconnectBlock`, last transaction first. -/
def disconnectCoins (nHeight : Nat) (vtx : List CTransaction) (vtxundo : List (List CTxInUndo))
    (view : CStateView) : Option (Bool × CStateView) :=
  if vtxundo.length + 1 ≠ vtx.length then none
  else (vtx.zip (none :: vtxundo.map some)).foldrM (disconnectTx nHeight) (true, view)

/-- `UpdateCoins` for the transactions of a block, with the undo data of each. -/
def connectCoins (nHeight : Nat) : List CTransaction → CStateView →
    Option (CStateView × List (List CTxInUndo))
  | [], view => some (view, [])
  | tx :: rest, view =>
    (updateCoins view tx nHeight).bind fun r =>
      (connectCoins nHeight rest r.1).map fun r' => (r'.1, r.2 :: r'.2)

/-! ## Trimmed entries -/

namespace CCoins

/-- An entry as it is kept: its last output is unspent, and its block is not the genesis block,
whose outputs never enter the view. -/
structure Proper (coins : CCoins) : Prop where
  last : (coins.vout.getLast?.join).isSome = true
  height : 0 < coins.nHeight

instance (coins : CCoins) : Decidable coins.Proper :=
  decidable_of_iff ((coins.vout.getLast?.join).isSome = true ∧ 0 < coins.nHeight)
    ⟨fun h => ⟨h.1, h.2⟩, fun h => ⟨h.last, h.height⟩⟩

/-- What `Cleanup` drops. -/
theorem resize_cleanup (vout : List (Option CTxOut)) :
    resize (cleanup vout) vout.length = vout := by
  have hSplit : vout = cleanup vout ++ (vout.reverse.takeWhile (·.isNone)).reverse := by
    rw [cleanup, ← reverse_append, takeWhile_append_dropWhile, reverse_reverse]
  have hNone : (vout.reverse.takeWhile (·.isNone)).reverse =
      replicate (vout.reverse.takeWhile (·.isNone)).reverse.length none := by
    apply eq_replicate_of_mem
    intro o ho
    rw [mem_reverse] at ho
    exact Option.isNone_iff_eq_none.mp (mem_takeWhile_imp ho)
  have hLen := congrArg length hSplit
  rw [length_append] at hLen
  conv_rhs => rw [hSplit, hNone]
  rw [resize]
  congr 2
  omega

variable {vout : List (Option CTxOut)}

/-- An entry whose last output is unspent is trimmed already. -/
theorem cleanup_of_last (h : (vout.getLast?.join).isSome = true) : cleanup vout = vout := by
  rw [getLast?_eq_head?_reverse] at h
  rw [cleanup]
  cases hRev : vout.reverse with
  | nil => rw [reverse_eq_nil_iff.mp hRev]; rfl
  | cons o rest =>
    rw [hRev] at h
    cases o with
    | none => cases h
    | some out =>
      rw [dropWhile_cons_of_neg (by simp), ← hRev, reverse_reverse]

/-- After `Cleanup` the last output is unspent, if any output is left. -/
theorem last_cleanup (h : (cleanup vout).isEmpty = false) :
    ((cleanup vout).getLast?.join).isSome = true := by
  rw [cleanup, getLast?_reverse]
  rw [cleanup] at h
  cases hDrop : vout.reverse.dropWhile (·.isNone) with
  | nil => rw [hDrop] at h; cases h
  | cons o rest =>
    have hHead := head_dropWhile_not (·.isNone) (l := vout.reverse) (by rw [hDrop]; simp)
    simp only [hDrop, head_cons] at hHead
    cases o with
    | none => cases hHead
    | some out => rfl

theorem cleanup_cleanup (vout : List (Option CTxOut)) : cleanup (cleanup vout) = cleanup vout := by
  cases h : (cleanup vout).isEmpty with
  | true => rw [isEmpty_iff.mp h]; rfl
  | false => exact cleanup_of_last (last_cleanup h)

/-- What `Cleanup` leaves was there before. -/
theorem mem_cleanup {o : Option CTxOut} (h : o ∈ cleanup vout) : o ∈ vout :=
  mem_reverse.mp ((dropWhile_sublist _).subset (mem_reverse.mp h))

/-- **Spending and putting back.** -/
theorem resize_spent {n : Nat} {out : CTxOut}
    (hLast : (vout.getLast?.join).isSome = true) (hOut : vout[n]?.join = some out) :
    (resize (cleanup (vout.set n none)) (n + 1)).set n (some out) = vout := by
  have hGet : vout[n]? = some (some out) := Option.join_eq_some_iff.mp hOut
  obtain ⟨hlt, hElem⟩ := List.getElem?_eq_some_iff.mp hGet
  have hBack : (vout.set n none).set n (some out) = vout := by
    rw [set_set, ← hElem, set_getElem_self]
  by_cases hEnd : n + 1 = vout.length
  · -- the last output: what `Cleanup` dropped comes back as null outputs
    have hPad := resize_cleanup (vout.set n none)
    rw [length_set, ← hEnd] at hPad
    rw [hPad, hBack]
  · -- the last output is still there, nothing is dropped
    have hKeep : ((vout.set n none).getLast?.join).isSome = true := by
      rw [getLast?_eq_getElem?, length_set, getElem?_set_ne (by omega), ← getLast?_eq_getElem?]
      exact hLast
    rw [cleanup_of_last hKeep, resize, length_set,
      show n + 1 - vout.length = 0 by omega, replicate_zero, append_nil, hBack]

end CCoins

/-- Every entry of the view is as it should be kept. -/
def CStateView.ProperCoins (view : CStateView) : Prop :=
  ∀ (txid : UInt256) (coins : CCoins), view.coins[txid]? = some coins → coins.Proper

instance (view : CStateView) : Decidable view.ProperCoins :=
  inferInstanceAs (Decidable (∀ (txid : UInt256) (coins : CCoins),
    view.coins[txid]? = some coins → coins.Proper))

/-! ## What comes back -/

section Restores

variable (V : Int → Int → Prop)

/-- The second entry has everything of the first but maybe the mark of a coinstake. -/
structure CCoins.Restores (coins coins' : CCoins) : Prop where
  vout : coins'.vout = coins.vout
  nHeight : coins'.nHeight = coins.nHeight
  fCoinBase : coins'.fCoinBase = coins.fCoinBase
  nVersion : V coins.nVersion coins'.nVersion
  fCoinStake : coins'.fCoinStake = true → coins.fCoinStake = true

/-- The same for undo data. -/
structure CTxInUndo.Restores (undo undo' : CTxInUndo) : Prop where
  txout : undo'.txout = undo.txout
  nHeight : undo'.nHeight = undo.nHeight
  fCoinBase : undo'.fCoinBase = undo.fCoinBase
  nVersion : V undo.nVersion undo'.nVersion

/-- The same for every entry of a view. -/
def CStateView.Restores (view view' : CStateView) : Prop :=
  ∀ txid : UInt256, Option.Rel (CCoins.Restores V) view.coins[txid]? view'.coins[txid]?

/-- A relation of versions that keeps those that are not negative. -/
structure KeepsVersions : Prop where
  refl : ∀ a, V a a
  trans : ∀ a b c, V a b → V b c → V a c
  keeps : ∀ a b, V a b → 0 ≤ a → b = a

end Restores

theorem keepsVersions_eq : KeepsVersions Eq :=
  ⟨fun _ => rfl, fun _ _ _ h h' => h.trans h', fun _ _ h _ => h.symm⟩

section Rules

variable {V : Int → Int → Prop}

namespace CCoins

theorem Restores.refl (hV : KeepsVersions V) (coins : CCoins) : coins.Restores V coins :=
  ⟨rfl, rfl, rfl, hV.refl _, id⟩

variable {a b coins : CCoins}

theorem Restores.trans (hV : KeepsVersions V) {c : CCoins} (h : a.Restores V b)
    (h' : b.Restores V c) : a.Restores V c where
  vout := h'.vout.trans h.vout
  nHeight := h'.nHeight.trans h.nHeight
  fCoinBase := h'.fCoinBase.trans h.fCoinBase
  nVersion := hV.trans _ _ _ h.nVersion h'.nVersion
  fCoinStake := fun hStake => h.fCoinStake (h'.fCoinStake hStake)

theorem Restores.isPruned (h : a.Restores V b) : b.isPruned = a.isPruned := by
  rw [CCoins.isPruned, CCoins.isPruned, h.vout]

theorem Restores.proper (h : a.Restores V b) (ha : a.Proper) : b.Proper :=
  ⟨by rw [h.vout]; exact ha.last, by rw [h.nHeight]; exact ha.height⟩

theorem Proper.not_pruned (h : coins.Proper) : coins.isPruned = false := by
  cases hVout : coins.vout with
  | nil =>
    have hLast := h.last
    rw [hVout] at hLast
    cases hLast
  | cons o rest => rw [CCoins.isPruned, hVout]; rfl

/-- Equal undo data on equal entries. -/
theorem Restores.applyUndo (h : a.Restores V b)
    {undo undo' : CTxInUndo} (hUndo : undo.Restores V undo') (n : Nat) :
    (b.applyUndo undo' n).1 = (a.applyUndo undo n).1 ∧
      (a.applyUndo undo n).2.Restores V (b.applyUndo undo' n).2 := by
  unfold CCoins.applyUndo
  rw [hUndo.nHeight, hUndo.txout, h.isPruned]
  by_cases hHeight : undo.nHeight ≠ 0
  · rw [if_pos hHeight, if_pos hHeight, hUndo.fCoinBase]
    exact ⟨rfl, ⟨rfl, rfl, rfl, hUndo.nVersion, id⟩⟩
  · rw [if_neg hHeight, if_neg hHeight]
    dsimp only
    rw [available, h.vout]
    exact ⟨rfl, ⟨rfl, h.nHeight, h.fCoinBase, h.nVersion, h.fCoinStake⟩⟩

theorem available_set_resize (coins : CCoins) (n m : Nat) (out : CTxOut) :
    available { coins with vout := (resize coins.vout (n + 1)).set n (some out) } m =
      if m = n then some out else coins.available m := by
  have hLength : n < (resize coins.vout (n + 1)).length := by
    rw [resize, length_append, length_replicate]
    omega
  unfold available
  by_cases hEq : m = n
  · rw [if_pos hEq, hEq, getElem?_set_self hLength]
    rfl
  · rw [if_neg hEq, getElem?_set_ne (Ne.symm hEq), resize]
    rcases Nat.lt_or_ge m coins.vout.length with hLt | hGe
    · rw [getElem?_append_left hLt]
    · rw [getElem?_append_right hGe, getElem?_eq_none hGe, getElem?_replicate]
      split <;> rfl

/-- After undo data the entry has an unspent output. -/
theorem not_pruned_applyUndo (coins : CCoins) (undo : CTxInUndo) (n : Nat) :
    (coins.applyUndo undo n).2.isPruned = false := by
  unfold CCoins.applyUndo CCoins.isPruned
  rw [isEmpty_eq_false_iff, ← length_pos_iff, length_set, resize, length_append, length_replicate]
  omega

/-- The undo data that `UpdateCoins` saves for an output. -/
def undoFor (coins : CCoins) (n : Nat) (out : CTxOut) : CTxInUndo :=
  if (coins.spend n).isPruned then ⟨out, coins.fCoinBase, coins.nHeight, coins.nVersion⟩
  else ⟨out, false, 0, 0⟩

variable {n : Nat}

/-- **One output.** The undo data of a spent output brings the entry back. -/
theorem applyUndo_spend (hV : KeepsVersions V) (hProper : coins.Proper)
    {out : CTxOut} (hOut : coins.available n = some out) {spent : CCoins}
    (hSpent : spent = if (coins.spend n).isPruned then .empty else coins.spend n) :
    (spent.applyUndo (coins.undoFor n out) n).1 = true ∧
      coins.Restores V (spent.applyUndo (coins.undoFor n out) n).2 := by
  have hBack := resize_spent hProper.last hOut
  have hGone := available_spend coins n n
  rw [if_pos rfl] at hGone
  unfold undoFor CCoins.applyUndo
  by_cases hPruned : (coins.spend n).isPruned = true
  · -- the last output: the data of the transaction are in the undo data
    rw [if_pos hPruned] at hSpent ⊢
    have hNil : cleanup (coins.vout.set n none) = [] := isEmpty_iff.mp hPruned
    rw [hNil] at hBack
    have hPos : coins.nHeight ≠ 0 := Nat.ne_of_gt hProper.height
    rw [if_pos hPos, hSpent]
    refine ⟨rfl, ⟨?_, rfl, rfl, hV.refl _, fun h => by cases h⟩⟩
    exact hBack
  · -- another output is left, and with it the data of the transaction
    rw [if_neg hPruned] at hSpent ⊢
    dsimp only
    rw [if_neg (by simp), hSpent, hGone]
    rw [Bool.not_eq_true] at hPruned
    refine ⟨by rw [hPruned]; rfl, ⟨?_, rfl, rfl, hV.refl _, id⟩⟩
    exact hBack

theorem Proper.spend (h : coins.Proper)
    (hLeft : (coins.spend n).isPruned = false) : (coins.spend n).Proper :=
  ⟨last_cleanup hLeft, h.height⟩

end CCoins

namespace CStateView

theorem coinsOf_available (view : CStateView) (prevout : COutPoint) :
    (view.coinsOf prevout.hash).available prevout.n = view.outputFor prevout := by
  unfold coinsOf outputFor
  cases view.coins[prevout.hash]? <;> rfl

theorem getElem?_setCoins (view : CStateView) (txid : UInt256) (coins : CCoins) (k : UInt256) :
    (view.setCoins txid coins).coins[k]? =
      if txid = k then (if coins.isPruned then none else some coins) else view.coins[k]? :=
  Map.getElem?_setUnless CCoins.isPruned view.coins txid k coins

theorem coinsOf_setCoins (view : CStateView) (txid : UInt256) (coins : CCoins) :
    (view.setCoins txid coins).coinsOf txid = if coins.isPruned then .empty else coins := by
  rw [coinsOf, getElem?_setCoins, if_pos rfl]
  split <;> rfl

variable {view : CStateView}

theorem ProperCoins.setCoins (h : view.ProperCoins) (txid : UInt256)
    {coins : CCoins} (hCoins : coins.isPruned = false → coins.Proper) :
    (view.setCoins txid coins).ProperCoins := by
  intro k c hk
  rw [getElem?_setCoins] at hk
  split at hk
  case isFalse => exact h k c hk
  case isTrue =>
    split at hk
    case isTrue => cases hk
    case isFalse hLeft =>
      cases hk
      exact hCoins (Bool.eq_false_iff.mpr hLeft)

theorem Restores.refl (hV : KeepsVersions V) (view : CStateView) : view.Restores V view := by
  intro txid
  cases view.coins[txid]? with
  | none => exact .none
  | some coins => exact .some (.refl hV coins)

theorem Restores.trans (hV : KeepsVersions V) {a b c : CStateView} (h : a.Restores V b)
    (h' : b.Restores V c) : a.Restores V c := by
  intro txid
  have hab := h txid
  have hbc := h' txid
  generalize a.coins[txid]? = x at hab ⊢
  generalize b.coins[txid]? = y at hab hbc
  generalize c.coins[txid]? = z at hbc ⊢
  cases hab with
  | none => cases hbc; exact .none
  | some hab =>
    cases hbc with
    | some hbc => exact .some (hab.trans hV hbc)

theorem Restores.coinsOf (hV : KeepsVersions V) {view' : CStateView}
    (h : view.Restores V view') (txid : UInt256) :
    (view.coinsOf txid).Restores V (view'.coinsOf txid) := by
  have hAt := h txid
  unfold CStateView.coinsOf
  generalize view.coins[txid]? = x at hAt ⊢
  generalize view'.coins[txid]? = y at hAt ⊢
  cases hAt with
  | none => exact .refl hV _
  | some hAt => exact hAt

theorem Restores.setCoins {view' : CStateView} (h : view.Restores V view') (txid : UInt256)
    {a b : CCoins} (hab : a.Restores V b) :
    (view.setCoins txid a).Restores V (view'.setCoins txid b) := by
  intro k
  rw [getElem?_setCoins, getElem?_setCoins, hab.isPruned]
  split
  case isFalse => exact h k
  case isTrue =>
    split
    case isTrue => exact .none
    case isFalse => exact .some hab

end CStateView

/-! ## The inputs of a transaction -/

theorem CTxInUndo.Restores.refl (hV : KeepsVersions V) (undo : CTxInUndo) :
    undo.Restores V undo := ⟨rfl, rfl, rfl, hV.refl _⟩

variable {view view' : CStateView} {nHeight : Nat}

theorem CStateView.Restores.applyTxInUndo (hV : KeepsVersions V)
    (h : view.Restores V view') {undo undo' : CTxInUndo} (hUndo : undo.Restores V undo')
    (out : COutPoint) :
    (applyTxInUndo undo' view' out).1 = (applyTxInUndo undo view out).1 ∧
      (applyTxInUndo undo view out).2.Restores V (applyTxInUndo undo' view' out).2 := by
  obtain ⟨hFlag, hCoins⟩ := (h.coinsOf hV out.hash).applyUndo hUndo out.n
  exact ⟨hFlag, h.setCoins out.hash hCoins⟩

/-- The new view has no entry that the old one did not have. -/
def NoNewCoins (view view' : CStateView) : Prop :=
  ∀ txid : UInt256, view.coins[txid]? = none → view'.coins[txid]? = none

variable {undos undos' : List CTxInUndo} {tx : CTransaction} {vtx : List CTransaction}

/-- **One input.** -/
theorem applyTxInUndo_spendInput (hV : KeepsVersions V) {txin : CTxIn} (hProper : view.ProperCoins)
    (h : spendInput (view, undos) txin = some (view', undos')) :
    view'.ProperCoins ∧ NoNewCoins view view' ∧ ∃ undo, undos' = undos ++ [undo] ∧
      (applyTxInUndo undo view' txin.prevout).1 = true ∧
      view.Restores V (applyTxInUndo undo view' txin.prevout).2 := by
  unfold spendInput at h
  split at h
  case h_2 => cases h
  case h_1 coins out hCoins hOut =>
    cases h
    have hAvail : coins.available txin.prevout.n = some out := by
      rwa [outputFor, hCoins] at hOut
    have hCoin := hProper _ _ hCoins
    refine ⟨hProper.setCoins _ hCoin.spend, ?_, coins.undoFor txin.prevout.n out, rfl, ?_⟩
    · intro k hk
      rw [getElem?_setCoins, if_neg]
      · exact hk
      · intro hEq
        rw [← hEq, hCoins] at hk
        cases hk
    · obtain ⟨hFlag, hBack⟩ := CCoins.applyUndo_spend hV hCoin hAvail
        (coinsOf_setCoins view txin.prevout.hash _)
      refine ⟨hFlag, ?_⟩
      intro k
      unfold applyTxInUndo
      rw [getElem?_setCoins, CCoins.not_pruned_applyUndo]
      split
      case isTrue hEq =>
        rw [← hEq, hCoins]
        exact .some hBack
      case isFalse hne =>
        rw [getElem?_setCoins, if_neg hne]
        exact CStateView.Restores.refl hV view k

/-- **The inputs of a transaction.** Undoing them gives the view before them, also when the
view and the undo data have lost what `Restores` allows. -/
theorem restoreInputs_spent (hV : KeepsVersions V) {vin : List CTxIn} (hProper : view.ProperCoins)
    (h : vin.foldlM spendInput (view, undos) = some (view', undos')) :
    view'.ProperCoins ∧ NoNewCoins view view' ∧ ∃ vprevout, undos' = undos ++ vprevout ∧
      vprevout.length = vin.length ∧
      ∀ kept, List.Forall₂ (CTxInUndo.Restores V) vprevout kept → ∀ w, view'.Restores V w →
        ∀ fClean, ∃ v, restoreInputs vin kept (fClean, w) = (fClean, v) ∧ view.Restores V v := by
  induction vin generalizing view undos with
  | nil =>
    cases h
    refine ⟨hProper, fun _ hk => hk, [], (append_nil _).symm, rfl, ?_⟩
    intro kept _ w hw fClean
    exact ⟨w, rfl, hw⟩
  | cons txin rest ih =>
    rw [foldlM_cons, Option.bind_eq_bind, Option.bind_eq_some_iff] at h
    obtain ⟨⟨view1, undos1⟩, hFirst, hRest⟩ := h
    obtain ⟨hProper1, hNew1, undo, rfl, hFlag, hBack⟩ := applyTxInUndo_spendInput hV hProper hFirst
    obtain ⟨hProper', hNew', vprevout, rfl, hLen, hUndo⟩ := ih hProper1 hRest
    refine ⟨hProper', fun k hk => hNew' k (hNew1 k hk), undo :: vprevout, by simp, by simp [hLen],
      ?_⟩
    intro kept hKept w hw fClean
    cases hKept with
    | cons hHead hTail =>
      obtain ⟨v1, hv1, hRel⟩ := hUndo _ hTail w hw fClean
      obtain ⟨hFlag', hBack'⟩ := hRel.applyTxInUndo hV hHead txin.prevout
      refine ⟨_, ?_, hBack.trans hV hBack'⟩
      unfold restoreInputs at hv1 ⊢
      rw [zip_cons_cons, foldr_cons, hv1]
      dsimp only
      rw [hFlag', hFlag, Bool.and_true]

/-! ## A transaction and a block -/

/-- The entry of a new transaction holds nothing unspendable. -/
theorem CCoins.clearUnspendable_fromTx (tx : CTransaction) (nHeight : Nat) :
    (CCoins.fromTx tx nHeight).clearUnspendable = .fromTx tx nHeight := by
  have hKept : ∀ o ∈ (CCoins.fromTx tx nHeight).vout,
      o.filter (fun out => !CScript.isUnspendable out.scriptPubKey) = o := by
    intro o ho
    obtain ⟨out, -, rfl⟩ := mem_map.mp (CCoins.mem_cleanup ho)
    split
    case isTrue => rfl
    case isFalse hSpendable =>
      rw [Bool.or_eq_true, not_or] at hSpendable
      simp [hSpendable.1]
  unfold CCoins.clearUnspendable
  have hTrimmed : CCoins.cleanup (CCoins.fromTx tx nHeight).vout = (CCoins.fromTx tx nHeight).vout :=
    CCoins.cleanup_cleanup _
  rw [map_congr_left hKept, map_id', hTrimmed]

theorem CCoins.proper_fromTx (tx : CTransaction) (hHeight : 0 < nHeight)
    (hLeft : (CCoins.fromTx tx nHeight).isPruned = false) : (CCoins.fromTx tx nHeight).Proper :=
  ⟨CCoins.last_cleanup hLeft, hHeight⟩

/-- A removed entry is the entry of a transaction that is not there. -/
theorem removeOutputs_fromTx (hV : KeepsVersions V) (view : CStateView) (tx : CTransaction)
    (nHeight : Nat) (hFresh : view.coins[tx.hash]? = none) :
    (removeOutputs nHeight tx (view.setCoins tx.hash (.fromTx tx nHeight))).1 = true ∧
      view.Restores V
        (removeOutputs nHeight tx (view.setCoins tx.hash (.fromTx tx nHeight))).2 := by
  unfold removeOutputs
  dsimp only
  refine ⟨?_, ?_⟩
  · rw [coinsOf_setCoins]
    cases hPruned : (CCoins.fromTx tx nHeight).isPruned with
    | true =>
      unfold CCoins.equal
      rw [hPruned]
      split <;> rfl
    | false =>
      rw [if_neg Bool.false_ne_true, CCoins.clearUnspendable_fromTx]
      unfold CCoins.equal
      split <;> simp
  · intro k
    rw [getElem?_setCoins]
    split
    case isTrue hEq =>
      rw [← hEq, hFresh]
      exact .none
    case isFalse hne =>
      rw [getElem?_setCoins, if_neg hne]
      exact CStateView.Restores.refl hV view k

theorem CCoins.Restores.clearUnspendable {a b : CCoins} (h : a.Restores V b) :
    a.clearUnspendable.Restores V b.clearUnspendable where
  vout := by unfold CCoins.clearUnspendable; rw [h.vout]
  nHeight := h.nHeight
  fCoinBase := h.fCoinBase
  nVersion := h.nVersion
  fCoinStake := h.fCoinStake

/-- The comparison with the block does not notice what `Restores` allows to be lost: a negative
version is overwritten before. -/
theorem CStateView.Restores.removeOutputs (hV : KeepsVersions V)
    (h : view.Restores V view') (nHeight : Nat) (tx : CTransaction)
    (hFlag : (removeOutputs nHeight tx view).1 = true) :
    (removeOutputs nHeight tx view').1 = true ∧
      (removeOutputs nHeight tx view).2.Restores V (removeOutputs nHeight tx view').2 := by
  refine ⟨?_, h.setCoins tx.hash (.refl hV .empty)⟩
  have hOuts := (h.coinsOf hV tx.hash).clearUnspendable
  unfold Electrum.removeOutputs CCoins.equal at hFlag ⊢
  generalize CCoins.fromTx tx nHeight = outsBlock at hFlag ⊢
  dsimp only at hFlag ⊢
  by_cases hNeg : outsBlock.nVersion < 0
  · rw [if_pos hNeg] at hFlag ⊢
    rw [hOuts.vout, hOuts.nHeight, hOuts.fCoinBase]
    exact hFlag
  · rw [if_neg hNeg] at hFlag ⊢
    rw [hOuts.isPruned, hOuts.vout, hOuts.nHeight, hOuts.fCoinBase]
    rw [Bool.or_eq_true] at hFlag ⊢
    refine hFlag.imp id fun hSame => ?_
    simp only [Bool.and_eq_true, beq_iff_eq] at hSame ⊢
    have hVersion := hV.keeps _ _ hOuts.nVersion (by omega)
    exact ⟨⟨hSame.1.1, hVersion.trans hSame.1.2⟩, hSame.2⟩

/-- The undo data of a transaction as `DisconnectBlock` looks it up. -/
def undoOf (tx : CTransaction) (vprevout : List CTxInUndo) : Option (List CTxInUndo) :=
  if tx.isCoinBase then none else some vprevout

/-- **One transaction.** -/
theorem disconnectTx_updateCoins (hV : KeepsVersions V)
    {vprevout : List CTxInUndo} (hProper : view.ProperCoins)
    (hHeight : 0 < nHeight) (hFresh : view.coins[tx.hash]? = none)
    (h : updateCoins view tx nHeight = some (view', vprevout)) :
    view'.ProperCoins ∧
      (∀ txid : UInt256, txid ≠ tx.hash → view.coins[txid]? = none → view'.coins[txid]? = none) ∧
      ∀ kept, List.Forall₂ (CTxInUndo.Restores V) vprevout kept → ∀ w, view'.Restores V w →
        ∀ fClean, ∃ v, disconnectTx nHeight (tx, undoOf tx kept) (fClean, w) = some (fClean, v) ∧
          view.Restores V v := by
  unfold updateCoins at h
  rw [Option.map_eq_some_iff] at h
  obtain ⟨⟨spent, undos⟩, hSpent, hEq⟩ := h
  obtain ⟨rfl, rfl⟩ :=
    Prod.mk.inj hEq
  -- the view without the new outputs, for both kinds of transaction
  have hInputs : spent.ProperCoins ∧ NoNewCoins view spent ∧
      ∀ kept, List.Forall₂ (CTxInUndo.Restores V) undos kept → ∀ w, spent.Restores V w →
        ∀ fClean, ∃ v, view.Restores V v ∧ (match undoOf tx kept with
            | none => some (fClean, w)
            | some vprevout =>
              if vprevout.length ≠ tx.vin.length then none
              else some (restoreInputs tx.vin vprevout (fClean, w))) = some (fClean, v) := by
    unfold undoOf
    by_cases hCb : tx.isCoinBase = true
    · rw [if_pos hCb] at hSpent
      cases hSpent
      refine ⟨hProper, fun _ hk => hk, fun kept _ w hw fClean => ⟨w, hw, ?_⟩⟩
      rw [if_pos hCb]
    · rw [if_neg hCb] at hSpent
      obtain ⟨hProper', hNew, vprevout, hUndos, hLen, hUndo⟩ :=
        restoreInputs_spent hV hProper hSpent
      subst hUndos
      refine ⟨hProper', hNew, fun kept hKept w hw fClean => ?_⟩
      obtain ⟨v, hv, hRel⟩ := hUndo kept hKept w hw fClean
      refine ⟨v, hRel, ?_⟩
      rw [if_neg hCb]
      dsimp only
      rw [if_neg (by rw [← hKept.length_eq, hLen]; simp), hv]
  obtain ⟨hProper', hNew, hUndo⟩ := hInputs
  refine ⟨hProper'.setCoins _ (CCoins.proper_fromTx tx hHeight), ?_, ?_⟩
  · intro txid hne hk
    rw [getElem?_setCoins, if_neg (Ne.symm hne)]
    exact hNew txid hk
  · intro kept hKept w hw fClean
    obtain ⟨hFlag, hBack⟩ := removeOutputs_fromTx hV spent tx nHeight (hNew tx.hash hFresh)
    obtain ⟨hFlag', hBack'⟩ := hw.removeOutputs hV nHeight tx hFlag
    obtain ⟨v, hRel, hv⟩ := hUndo kept hKept _ (hBack.trans hV hBack') fClean
    refine ⟨v, ?_, hRel⟩
    unfold disconnectTx
    dsimp only
    rw [hFlag', Bool.and_true]
    exact hv

/-- No transaction of a block has unspent outputs in the view, and their ids differ. -/
@[mk_iff]
structure FreshTxs (view : CStateView) (vtx : List CTransaction) : Prop where
  fresh : ∀ tx ∈ vtx, view.coins[tx.hash]? = none
  distinct : (vtx.map (·.hash)).Nodup

instance (view : CStateView) (vtx : List CTransaction) : Decidable (FreshTxs view vtx) :=
  decidable_of_iff _ (freshTxs_iff view vtx).symm

/-- What holds of the transactions after the first, once that one is applied. -/
theorem FreshTxs.tail (h : FreshTxs view (tx :: vtx))
    (hNew : ∀ txid : UInt256, txid ≠ tx.hash → view.coins[txid]? = none →
      view'.coins[txid]? = none) : FreshTxs view' vtx := by
  obtain ⟨hFresh, hDistinct⟩ := h
  rw [map_cons, nodup_cons] at hDistinct
  refine ⟨fun tx' hMem => hNew tx'.hash ?_ (hFresh tx' (mem_cons_of_mem tx hMem)), hDistinct.2⟩
  intro hEq
  exact hDistinct.1 (hEq ▸ mem_map_of_mem hMem)

/-- The transactions after the coinbase. -/
theorem disconnectTx_connectCoins (hV : KeepsVersions V) {vtxundo : List (List CTxInUndo)}
    (hOthers : ∀ tx ∈ vtx, tx.isCoinBase = false) (hProper : view.ProperCoins)
    (hHeight : 0 < nHeight) (hFresh : FreshTxs view vtx)
    (h : connectCoins nHeight vtx view = some (view', vtxundo)) :
    vtxundo.length = vtx.length ∧ ∃ v,
      (vtx.zip (vtxundo.map some)).foldrM (disconnectTx nHeight) (true, view') = some (true, v) ∧
      view.Restores V v := by
  induction vtx generalizing view vtxundo with
  | nil =>
    cases h
    exact ⟨rfl, _, rfl, .refl hV _⟩
  | cons tx rest ih =>
    simp only [connectCoins, Option.bind_eq_some_iff, Option.map_eq_some_iff] at h
    obtain ⟨⟨view1, vprevout⟩, hFirst, ⟨view2, vtxundo⟩, hRest, hEq⟩ := h
    cases hEq
    obtain ⟨hProper1, hNew, hUndo⟩ :=
      disconnectTx_updateCoins hV hProper hHeight (hFresh.fresh tx mem_cons_self) hFirst
    obtain ⟨hLen, w, hw, hRel⟩ := ih (fun tx' hMem => hOthers tx' (mem_cons_of_mem tx hMem))
      hProper1 (hFresh.tail hNew) hRest
    have hSame := forall₂_same.mpr fun (undo : CTxInUndo) (_ : undo ∈ vprevout) =>
      CTxInUndo.Restores.refl hV undo
    obtain ⟨v, hv, hBack⟩ := hUndo vprevout hSame w hRel true
    rw [undoOf, hOthers tx mem_cons_self] at hv
    refine ⟨by simp [hLen], v, ?_, hBack⟩
    rw [map_cons, zip_cons_cons, foldrM_cons, hw]
    exact hv

end Rules

/-- **A block.** Connecting the transactions of a block and undoing them gives back, for every
transaction, the unspent outputs, the height, the version and the mark of a coinbase, and the
undo reports no inconsistency. -/
theorem disconnectCoins_connectCoins {view view' : CStateView} {coinbase : CTransaction}
    {vtx : List CTransaction} {nHeight : Nat} {undo : List CTxInUndo}
    {vtxundo : List (List CTxInUndo)} (hCoinBase : coinbase.isCoinBase = true)
    (hOthers : ∀ tx ∈ vtx, tx.isCoinBase = false) (hProper : view.ProperCoins)
    (hHeight : 0 < nHeight) (hFresh : FreshTxs view (coinbase :: vtx))
    (hConnect : connectCoins nHeight (coinbase :: vtx) view = some (view', undo :: vtxundo)) :
    ∃ restored, disconnectCoins nHeight (coinbase :: vtx) vtxundo view' = some (true, restored) ∧
      view.Restores Eq restored := by
  simp only [connectCoins, Option.bind_eq_some_iff, Option.map_eq_some_iff] at hConnect
  obtain ⟨⟨view1, vprevout⟩, hFirst, ⟨view2, vtxundo'⟩, hRest, hEq⟩ := hConnect
  cases hEq
  obtain ⟨hProper1, hNew, hUndo⟩ := disconnectTx_updateCoins keepsVersions_eq hProper hHeight
    (hFresh.fresh coinbase mem_cons_self) hFirst
  obtain ⟨hLen, w, hw, hRel⟩ := disconnectTx_connectCoins keepsVersions_eq hOthers hProper1
    hHeight (hFresh.tail hNew) hRest
  have hSame := forall₂_same.mpr fun (undo : CTxInUndo) (_ : undo ∈ vprevout) =>
    CTxInUndo.Restores.refl keepsVersions_eq undo
  obtain ⟨v, hv, hBack⟩ := hUndo vprevout hSame w hRel true
  refine ⟨v, ?_, hBack⟩
  rw [disconnectCoins, if_neg (by simp [hLen]), zip_cons_cons, foldrM_cons, hw]
  rw [undoOf, if_pos hCoinBase] at hv
  exact hv

/-- A view with one coinbase, of the given height. -/
def coinbaseView (nHeight : Nat) : CStateView :=
  let coins : CCoins := ⟨true, false, [none, some ⟨50, [0x51]⟩], nHeight, 2⟩
  { empty with coins := (∅ : Map UInt256 CCoins).insert 1 coins }

/-- A coinbase, a transaction that spends the only output of `coinbaseView`, and one that spends
an output of the transaction before it. -/
def spendingBlock : List CTransaction :=
  [⟨10, 1, 0, [⟨⟨0, 2 ^ 32 - 1⟩⟩], [⟨0, []⟩], ""⟩,
    ⟨11, 1, 0, [⟨⟨1, 1⟩⟩], [⟨30, [0x51]⟩, ⟨20, [0x52]⟩], ""⟩,
    ⟨12, 1, 0, [⟨⟨11, 0⟩⟩], [⟨30, [0x53]⟩], ""⟩]

/-- The block over a coinbase of height five. -/
theorem disconnectCoins_connectCoins_spendingBlock :
    ∃ view' undo vtxundo restored,
      connectCoins 9 spendingBlock (coinbaseView 5) = some (view', undo :: vtxundo) ∧
      disconnectCoins 9 spendingBlock vtxundo view' = some (true, restored) ∧
      (coinbaseView 5).Restores Eq restored := by
  have hRun : (connectCoins 9 spendingBlock (coinbaseView 5)).any (fun r => r.2.length == 3) =
      true := by decide +kernel
  obtain ⟨⟨view', vtxundo⟩, hConnect, hLen⟩ := (Option.any_eq_true _ _).mp hRun
  cases vtxundo with
  | nil => cases hLen
  | cons undo vtxundo =>
    obtain ⟨restored, hBack, hSame⟩ := disconnectCoins_connectCoins (by decide) (by decide)
      (by decide +kernel) (by decide) (by decide +kernel) hConnect
    exact ⟨view', undo, vtxundo, restored, hConnect, hBack, hSame⟩

/-- **Height zero.** Undo data with height zero are taken for those of an output that is not the
last one, and since no other is left the undo reports an inconsistency. -/
theorem disconnectCoins_height_zero :
    ∃ view' undo vtxundo restored, FreshTxs (coinbaseView 0) spendingBlock ∧
      connectCoins 9 spendingBlock (coinbaseView 0) = some (view', undo :: vtxundo) ∧
      disconnectCoins 9 spendingBlock vtxundo view' = some (false, restored) := by
  have hRun : (connectCoins 9 spendingBlock (coinbaseView 0)).any (fun r => r.2.length == 3 &&
      (disconnectCoins 9 spendingBlock r.2.tail r.1).any (·.1 == false)) = true := by decide +kernel
  obtain ⟨⟨view', vtxundo⟩, hConnect, hRun⟩ := (Option.any_eq_true _ _).mp hRun
  rw [Bool.and_eq_true] at hRun
  cases vtxundo with
  | nil => cases hRun.1
  | cons undo vtxundo =>
    obtain ⟨⟨fClean, restored⟩, hBack, hEnd⟩ := (Option.any_eq_true _ _).mp hRun.2
    rw [beq_iff_eq] at hEnd
    obtain rfl : fClean = false := hEnd
    exact ⟨view', undo, vtxundo, restored, by decide +kernel, hConnect, hBack⟩

end Electrum
