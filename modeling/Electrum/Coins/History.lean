import Electrum.Coins.Codec
import Electrum.Lib.Run

/-!
# The history of a coin view

An entry of the coin view can have been in memory since its transaction was connected, it can
have been flushed to the database and loaded again, and it can have been spent and restored
from undo data, any number of times in any order.  After every such history the view has the
content it started with, up to the marks of coinstakes and negative versions; and only the
mark of a coinstake changes what `CheckTxInputs` says.

Main results:
* `Rewinds.step` — every move can be undone up to what `Restores` allows
* `checkTxInputs_restored` — what the loss of a mark does to the verdict
* `checkTxInputs_history` — the verdict after any history
-/

namespace Electrum

open Option List

/-! ## Moves -/

/-- Write an entry to the database and load it again. -/
def CCoins.reload (keys : PubKeyCodec) (coins : CCoins) : Option CCoins :=
  (CCoins.unserialize keys (coins.serialize keys)).map (·.1)

/-- Write undo data to the undo file and read them again. -/
def CTxInUndo.reload (keys : PubKeyCodec) (undo : CTxInUndo) : Option CTxInUndo :=
  (CTxInUndo.unserialize keys (undo.serialize keys)).map (·.1)

/-- A coin view and the transactions applied to it since the start, the last one first, each
with its height and its undo data as the undo file holds them. -/
structure CoinHistory where
  view : CStateView
  journal : List (CTransaction × Nat × List CTxInUndo)
  deriving DecidableEq

/-- What can happen to a coin view. -/
inductive CoinMove where
  | flush (txid : UInt256)
  | connect (tx : CTransaction) (nHeight : Nat)
  | disconnect
  deriving DecidableEq

def CoinHistory.move (keys : PubKeyCodec) (h : CoinHistory) : CoinMove → Option CoinHistory
  | .flush txid =>
    (h.view.coins[txid]?).bind fun coins =>
      (coins.reload keys).map fun coins => { h with view := h.view.setCoins txid coins }
  | .connect tx nHeight =>
    (updateCoins h.view tx nHeight).bind fun r =>
      (r.2.mapM (CTxInUndo.reload keys)).map fun kept =>
        ⟨r.1, (tx, nHeight, kept) :: h.journal⟩
  | .disconnect =>
    match h.journal with
    | [] => none
    | (tx, nHeight, kept) :: journal =>
      (disconnectTx nHeight (tx, undoOf tx kept) (true, h.view)).map fun r => ⟨r.2, journal⟩

/-- A transaction is connected above the genesis block, under an id without unspent outputs,
and its amounts survive the database. -/
def CoinMove.Regular (view : CStateView) : CoinMove → Prop
  | .connect tx nHeight => 0 < nHeight ∧ view.coins[tx.hash]? = none ∧
      ∀ out ∈ tx.vout, amountSurvives out.nValue = true
  | _ => True

instance (view : CStateView) (m : CoinMove) : Decidable (m.Regular view) :=
  match m with
  | .flush _ => .isTrue trivial
  | .connect tx nHeight => inferInstanceAs (Decidable (0 < nHeight ∧
      view.coins[tx.hash]? = none ∧ ∀ out ∈ tx.vout, amountSurvives out.nValue = true))
  | .disconnect => .isTrue trivial

/-- A history of regular moves. -/
def CoinRun (keys : PubKeyCodec) : CoinHistory → CoinHistory → Prop :=
  Relation.ReflTransGen fun h h' => ∃ m : CoinMove, m.Regular h.view ∧ h.move keys m = some h'

/-! ## Every entry can be stored -/

/-- The database keeps every entry of the view. -/
def CStateView.StorableCoins (view : CStateView) : Prop :=
  ∀ (txid : UInt256) (coins : CCoins), view.coins[txid]? = some coins → coins.Storable

instance (view : CStateView) : Decidable view.StorableCoins :=
  inferInstanceAs (Decidable (∀ (txid : UInt256) (coins : CCoins),
    view.coins[txid]? = some coins → coins.Storable))

variable {view : CStateView} {coins : CCoins} {keys : PubKeyCodec}

theorem CStateView.StorableCoins.proper (h : view.StorableCoins) :
    view.ProperCoins := fun txid coins hk => (h txid coins hk).toProper

theorem CStateView.StorableCoins.setCoins (h : view.StorableCoins)
    (txid : UInt256) (hCoins : coins.isPruned = false → coins.Storable) :
    (view.setCoins txid coins).StorableCoins := by
  intro k c hk
  rw [CStateView.getElem?_setCoins] at hk
  split at hk
  case isFalse => exact h k c hk
  case isTrue =>
    split at hk
    case isTrue => cases hk
    case isFalse hLeft =>
      cases hk
      exact hCoins (Bool.eq_false_iff.mpr hLeft)

section Restores

variable {V : Int → Int → Prop}

theorem CCoins.Restores.storable {a b : CCoins} (h : a.Restores V b) (ha : a.Storable) :
    b.Storable :=
  ⟨h.proper ha.toProper, fun out hOut => ha.outputs out (h.vout ▸ hOut)⟩

theorem CStateView.Restores.storable {view view' : CStateView} (h : view.Restores V view')
    (hView : view.StorableCoins) : view'.StorableCoins := by
  intro k c hk
  have hAt := h k
  rw [hk] at hAt
  generalize hOld : view.coins[k]? = old at hAt
  cases hAt with
  | some hAt => exact hAt.storable (hView k _ hOld)

end Restores

variable {n nHeight : Nat} {tx : CTransaction} {view' start : CStateView}
  {vprevout : List CTxInUndo} {h h' : CoinHistory}

theorem CCoins.Storable.spend (h : coins.Storable)
    (hLeft : (coins.spend n).isPruned = false) : (coins.spend n).Storable := by
  refine ⟨h.toProper.spend hLeft, fun out hOut => h.outputs out ?_⟩
  rcases mem_or_eq_of_mem_set (CCoins.mem_cleanup hOut) with hMem | hNone
  · exact hMem
  · cases hNone

theorem CCoins.Storable.undoFor (h : coins.Storable) {out : CTxOut}
    (hOut : coins.available n = some out) : (coins.undoFor n out).Storable := by
  have hStorable := h.outputs out (mem_of_getElem? (join_eq_some_iff.mp hOut))
  unfold CCoins.undoFor
  split
  · exact ⟨hStorable, fun hZero => absurd hZero (Nat.ne_of_gt h.height)⟩
  · exact ⟨hStorable, fun _ => rfl⟩

theorem CCoins.storable_fromTx (hHeight : 0 < nHeight)
    (hAmounts : ∀ out ∈ tx.vout, amountSurvives out.nValue = true)
    (hLeft : (CCoins.fromTx tx nHeight).isPruned = false) :
    (CCoins.fromTx tx nHeight).Storable := by
  refine ⟨CCoins.proper_fromTx tx hHeight hLeft, fun out hOut => ?_⟩
  obtain ⟨out', hMem, hEq⟩ := mem_map.mp (CCoins.mem_cleanup hOut)
  split at hEq
  case isTrue => cases hEq
  case isFalse hKept =>
    cases hEq
    simp only [Bool.or_eq_true, not_or, Bool.not_eq_true] at hKept
    simp [CTxOut.storable, hKept.1, hKept.2, hAmounts out hMem]

/-- Spending and adding outputs keeps all entries and makes undo data that can be stored. -/
theorem updateCoins_storable (hView : view.StorableCoins) (hHeight : 0 < nHeight)
    (hAmounts : ∀ out ∈ tx.vout, amountSurvives out.nValue = true)
    (h : updateCoins view tx nHeight = some (view', vprevout)) :
    view'.StorableCoins ∧ ∀ undo ∈ vprevout, undo.Storable := by
  unfold updateCoins at h
  rw [map_eq_some_iff] at h
  obtain ⟨st, hSpent, hEq⟩ := h
  suffices hInputs : st.1.StorableCoins ∧ ∀ undo ∈ st.2, undo.Storable by
    cases hEq
    exact ⟨hInputs.1.setCoins _ (CCoins.storable_fromTx hHeight hAmounts), hInputs.2⟩
  split at hSpent
  case isTrue =>
    cases hSpent
    exact ⟨hView, fun undo hMem => by cases hMem⟩
  case isFalse =>
    refine foldlM_option_invariant
      (fun _ (st : CStateView × List CTxInUndo) =>
        st.1.StorableCoins ∧ ∀ undo ∈ st.2, undo.Storable)
      tx.vin (b := (view, [])) (r := st) ⟨hView, fun undo hMem => by cases hMem⟩ ?_ hSpent
    intro done txin rest st st' _ hSt hStep
    unfold spendInput at hStep
    split at hStep
    case h_2 => cases hStep
    case h_1 coins out hCoins hOut =>
      have hCoin := hSt.1 _ _ hCoins
      have hAvail : coins.available txin.prevout.n = some out := by
        rwa [CStateView.outputFor, hCoins] at hOut
      cases hStep
      refine ⟨hSt.1.setCoins _ hCoin.spend, fun undo hMem => ?_⟩
      rcases mem_append.mp hMem with hOld | hNew
      · exact hSt.2 undo hOld
      · rw [mem_singleton.mp hNew]
        exact hCoin.undoFor hAvail

/-! ## Rewinding a history -/

theorem CCoins.reload_eq (keys : PubKeyCodec) (h : coins.Storable) :
    coins.reload keys = some coins.stored := by
  rw [CCoins.reload, (CCoins.reads_coins keys h).run]
  rfl

theorem CTxInUndo.reload_eq (keys : PubKeyCodec) {undo : CTxInUndo} (h : undo.Storable) :
    undo.reload keys = some undo.stored := by
  rw [CTxInUndo.reload, (CTxInUndo.reads_undo keys h).run]
  rfl

/-- The undo file gives back the undo data of a transaction, up to negative versions. -/
theorem CTxInUndo.restores_reload {kept : List CTxInUndo}
    (hStorable : ∀ undo ∈ vprevout, undo.Storable)
    (h : vprevout.mapM (CTxInUndo.reload keys) = some kept) :
    List.Forall₂ (CTxInUndo.Restores VersionKept) vprevout kept := by
  induction vprevout generalizing kept with
  | nil =>
    cases h
    exact .nil
  | cons undo vprevout ih =>
    have hHead := hStorable undo mem_cons_self
    rw [mapM_cons, CTxInUndo.reload_eq keys hHead] at h
    obtain ⟨rest, hRest, hEq⟩ : ∃ rest, vprevout.mapM (CTxInUndo.reload keys) = some rest ∧
        some (undo.stored :: rest) = some kept := bind_eq_some_iff.mp h
    cases hEq
    exact .cons hHead.restores_stored
      (ih (fun u hu => hStorable u (mem_cons_of_mem undo hu)) hRest)

/-- Undoing the journal on any copy of the view gives back the view `start`. -/
def Rewinds (start : CStateView) : List (CTransaction × Nat × List CTxInUndo) → CStateView → Prop
  | [], view => start.Restores VersionKept view
  | (tx, nHeight, kept) :: journal, view =>
    ∀ w, view.Restores VersionKept w → ∃ v,
      disconnectTx nHeight (tx, undoOf tx kept) (true, w) = some (true, v) ∧
        v.StorableCoins ∧ Rewinds start journal v

theorem Rewinds.mono {w : CStateView}
    {journal : List (CTransaction × Nat × List CTxInUndo)} (h : Rewinds start journal view)
    (hw : view.Restores VersionKept w) : Rewinds start journal w := by
  cases journal with
  | nil => exact h.trans keepsVersions_kept hw
  | cons entry journal =>
    intro w' hw'
    exact h w' (hw.trans keepsVersions_kept hw')

/-- **One move.** -/
theorem Rewinds.step {m : CoinMove}
    (hStorable : h.view.StorableCoins) (hRewinds : Rewinds start h.journal h.view)
    (hRegular : m.Regular h.view) (hMove : h.move keys m = some h') :
    h'.view.StorableCoins ∧ Rewinds start h'.journal h'.view := by
  cases m with
  | flush txid =>
    obtain ⟨coins, hCoins, hReload⟩ := bind_eq_some_iff.mp hMove
    have hCoin := hStorable txid coins hCoins
    rw [CCoins.reload_eq keys hCoin] at hReload
    cases hReload
    have hSame : h.view.setCoins txid coins = h.view := by
      unfold CStateView.setCoins
      rw [Map.setUnless_self hCoins hCoin.toProper.not_pruned]
    have hBack := (CStateView.Restores.refl keepsVersions_kept h.view).setCoins txid
      coins.restores_stored
    rw [hSame] at hBack
    exact ⟨hBack.storable hStorable, hRewinds.mono hBack⟩
  | connect tx nHeight =>
    obtain ⟨⟨view', vprevout⟩, hUpdate, hKept⟩ := bind_eq_some_iff.mp hMove
    obtain ⟨kept, hReload, rfl⟩ := map_eq_some_iff.mp hKept
    obtain ⟨hHeight, hFresh, hAmounts⟩ := hRegular
    obtain ⟨hView', hUndos⟩ := updateCoins_storable hStorable hHeight hAmounts hUpdate
    obtain ⟨-, -, hUndo⟩ :=
      disconnectTx_updateCoins keepsVersions_kept hStorable.proper hHeight hFresh hUpdate
    refine ⟨hView', fun w hw => ?_⟩
    obtain ⟨v, hv, hBack⟩ := hUndo kept (CTxInUndo.restores_reload hUndos hReload) w hw true
    exact ⟨v, hv, hBack.storable hStorable, hRewinds.mono hBack⟩
  | disconnect =>
    -- the invariant covers every view that can stand for the present one
    obtain ⟨view, journal⟩ := h
    cases journal with
    | nil => cases hMove
    | cons entry journal =>
      obtain ⟨v, hv, hStorable', hRest⟩ :=
        hRewinds view (CStateView.Restores.refl keepsVersions_kept view)
      unfold CoinHistory.move at hMove
      dsimp only at hMove
      rw [hv] at hMove
      cases hMove
      exact ⟨hStorable', hRest⟩

/-- **Histories.** A history that has undone all it has connected ends with the content it
started with. -/
theorem restores_history
    (hStorable : view.StorableCoins) (hRun : CoinRun keys ⟨view, []⟩ ⟨view', []⟩) :
    view.Restores VersionKept view' := by
  have hStep : ∀ h h' : CoinHistory, h.view.StorableCoins ∧ Rewinds view h.journal h.view →
      (∃ m : CoinMove, m.Regular h.view ∧ h.move keys m = some h') →
      h'.view.StorableCoins ∧ Rewinds view h'.journal h'.view :=
    fun h h' hInv ⟨m, hRegular, hMove⟩ => Rewinds.step hInv.1 hInv.2 hRegular hMove
  obtain ⟨-, hEnd⟩ := run_invariant hRun
    ⟨hStorable, CStateView.Restores.refl keepsVersions_kept view⟩ hStep
  exact hEnd

/-! ## The verdict of `CheckTxInputs` -/

/-- Every coinstake output that a transaction spends is mature. -/
def stakesMature (params : Params) (fTestnet : Bool) (view : CStateView) (nSpendHeight : Nat)
    (tx : CTransaction) : Bool :=
  tx.vin.all fun txin => (view.coins[txin.prevout.hash]?).all fun coins =>
    !coins.fCoinStake || coinbaseMature params fTestnet coins nSpendHeight

section Verdict

variable {V : Int → Int → Prop} (params : Params) (fTestnet : Bool) (nSpendHeight : Nat)

/-- Without the mark of a coinstake an output counts as mature at once. -/
theorem CCoins.Restores.mature {coins coins' : CCoins} (h : coins.Restores V coins') :
    coinbaseMature params fTestnet coins nSpendHeight =
      (coinbaseMature params fTestnet coins' nSpendHeight &&
        (!coins.fCoinStake || coinbaseMature params fTestnet coins nSpendHeight)) := by
  have hStake := h.fCoinStake
  unfold coinbaseMature
  rw [h.nHeight, h.fCoinBase]
  cases hOld : coins.fCoinStake with
  | false =>
    have hNew : coins'.fCoinStake = false := by
      rw [hOld] at hStake
      exact Bool.eq_false_iff.mpr fun hTrue => by cases hStake hTrue
    simp [hNew]
  | true =>
    cases coins'.fCoinStake <;> cases coins.fCoinBase <;> cases fTestnet <;> simp

variable {view view' : CStateView}

theorem CStateView.Restores.outputFor (h : view.Restores V view')
    (prevout : COutPoint) : view'.outputFor prevout = view.outputFor prevout := by
  have hAt := h prevout.hash
  unfold CStateView.outputFor
  generalize view.coins[prevout.hash]? = x at hAt ⊢
  generalize view'.coins[prevout.hash]? = y at hAt ⊢
  cases hAt with
  | none => rfl
  | some hAt => simp [CCoins.available, hAt.vout]

/-- The loop over the inputs. -/
theorem CStateView.Restores.inputsInRange (h : view.Restores V view')
    (vin : List CTxIn) (nValueIn : Int) :
    inputsInRange params fTestnet view nSpendHeight vin nValueIn =
      (inputsInRange params fTestnet view' nSpendHeight vin nValueIn &&
        vin.all fun txin => (view.coins[txin.prevout.hash]?).all fun coins =>
          !coins.fCoinStake || coinbaseMature params fTestnet coins nSpendHeight) := by
  induction vin generalizing nValueIn with
  | nil => rfl
  | cons txin rest ih =>
    have hAt := h txin.prevout.hash
    unfold Electrum.inputsInRange
    rw [h.outputFor, all_cons]
    generalize view.coins[txin.prevout.hash]? = x at hAt ⊢
    generalize view'.coins[txin.prevout.hash]? = y at hAt ⊢
    cases hAt with
    | none => rfl
    | some hAt =>
      cases view.outputFor txin.prevout with
      | none => rfl
      | some out =>
        have hMature := hAt.mature params fTestnet nSpendHeight
        dsimp only [all_some]
        -- the test of the coinstake moves to the end of the conjunction
        generalize (!_ || coinbaseMature params fTestnet _ nSpendHeight : Bool) = fStake
          at hMature ⊢
        rw [hMature, ih (nValueIn + out.nValue)]
        ac_rfl

/-- **The verdict.** What a view says that has lost marks of coinstakes. -/
theorem checkTxInputs_restored (h : view.Restores V view') (tx : CTransaction) :
    checkTxInputs params fTestnet view nSpendHeight tx =
      (checkTxInputs params fTestnet view' nSpendHeight tx &&
        stakesMature params fTestnet view nSpendHeight tx) := by
  have hHave : view'.haveInputs tx = view.haveInputs tx := by
    unfold CStateView.haveInputs
    simp only [h.outputFor]
  have hValue : view'.getValueIn tx = view.getValueIn tx := by
    unfold CStateView.getValueIn
    simp only [h.outputFor]
  unfold checkTxInputs stakesMature
  rw [hHave, hValue, h.inputsInRange params fTestnet nSpendHeight tx.vin 0]
  ac_rfl

end Verdict

/-- **Any history.** When the coinstake outputs that a transaction spends are mature, the verdict
of `CheckTxInputs` is the same after every history of the view; when one is not, the verdict in
memory is a rejection, and a history that accepts the transaction disagrees with it. -/
theorem checkTxInputs_history {keys : PubKeyCodec} {view view' : CStateView}
    (hStorable : view.StorableCoins) (hRun : CoinRun keys ⟨view, []⟩ ⟨view', []⟩)
    (params : Params) (fTestnet : Bool) (nSpendHeight : Nat) (tx : CTransaction) :
    (stakesMature params fTestnet view nSpendHeight tx = true →
      checkTxInputs params fTestnet view' nSpendHeight tx =
        checkTxInputs params fTestnet view nSpendHeight tx) ∧
    (stakesMature params fTestnet view nSpendHeight tx = false →
      (checkTxInputs params fTestnet view' nSpendHeight tx =
        checkTxInputs params fTestnet view nSpendHeight tx ↔
      checkTxInputs params fTestnet view' nSpendHeight tx = false)) := by
  have hVerdict := checkTxInputs_restored params fTestnet nSpendHeight
    (restores_history hStorable hRun) tx
  refine ⟨fun hMature => ?_, fun hYoung => ?_⟩
  · rw [hVerdict, hMature, Bool.and_true]
  · rw [hVerdict, hYoung, Bool.and_false]

/-- A view with the second output of a coinstake of height 100. -/
def stakeView : CStateView :=
  let coins : CCoins := ⟨false, true, [none, some ⟨1000, [0x51]⟩], 100, 1⟩
  { CStateView.empty with coins := (∅ : Map UInt256 CCoins).insert 1 coins }

/-- A transaction that spends it. -/
def stakeSpender : CTransaction := ⟨2, 1, 0, [⟨⟨1, 1⟩⟩], [⟨900, [0x52]⟩], ""⟩

/-- The moves of a list, as long as they are regular. -/
def CoinHistory.run (keys : PubKeyCodec) (h : CoinHistory) (moves : List CoinMove) :
    Option CoinHistory :=
  moves.foldlM (fun h m => if m.Regular h.view then h.move keys m else none) h

theorem CoinHistory.run_coinRun {moves : List CoinMove}
    (hRun : h.run keys moves = some h') : CoinRun keys h h' := by
  refine foldlM_option_invariant (fun _ h' => CoinRun keys h h') moves .refl ?_ hRun
  intro done m rest h1 h2 _ hDone hStep
  split at hStep
  case isFalse => cases hStep
  case isTrue hRegular => exact hDone.tail ⟨m, hRegular, hStep⟩

/-- A run that ends with an empty journal and a view of a given kind. -/
theorem CoinHistory.exists_run (keys : PubKeyCodec) (view : CStateView) (moves : List CoinMove)
    (p : CStateView → Bool)
    (h : ((⟨view, []⟩ : CoinHistory).run keys moves).any
      (fun h => h.journal.isEmpty && p h.view) = true) :
    ∃ view', (⟨view, []⟩ : CoinHistory).run keys moves = some ⟨view', []⟩ ∧ p view' = true := by
  obtain ⟨⟨view', journal⟩, hRun, hEnd⟩ := (any_eq_true _ _).mp h
  rw [Bool.and_eq_true, List.isEmpty_iff] at hEnd
  obtain ⟨rfl, hView⟩ := hEnd
  exact ⟨view', hRun, hView⟩

/-- A hundred blocks later the coinstake is mature, and a flush makes no difference. -/
theorem checkTxInputs_history_mature : ∃ view',
    CoinRun noUncompressedKeys ⟨stakeView, []⟩ ⟨view', []⟩ ∧ view' ≠ stakeView ∧
    stakesMature mainParams false stakeView 200 stakeSpender = true ∧
    checkTxInputs mainParams false view' 200 stakeSpender =
      checkTxInputs mainParams false stakeView 200 stakeSpender := by
  obtain ⟨view', hRun, hView⟩ := CoinHistory.exists_run noUncompressedKeys stakeView [.flush 1]
    (fun view => decide (view ≠ stakeView)) (by decide +kernel)
  have hMature : stakesMature mainParams false stakeView 200 stakeSpender = true := by
    decide +kernel
  have hRun := CoinHistory.run_coinRun hRun
  exact ⟨view', hRun, of_decide_eq_true hView, hMature,
    (checkTxInputs_history (by decide +kernel) hRun mainParams false 200 stakeSpender).1 hMature⟩

/-- **A coinstake too young to spend.** In memory it is rejected; after a flush, and after it was
spent and restored, it is accepted. -/
theorem checkTxInputs_history_broken : stakeView.StorableCoins ∧
    checkTxInputs mainParams false stakeView 110 stakeSpender = false ∧
    (∃ view', (⟨stakeView, []⟩ : CoinHistory).run noUncompressedKeys [.flush 1] =
        some ⟨view', []⟩ ∧ checkTxInputs mainParams false view' 110 stakeSpender = true) ∧
    (∃ view', (⟨stakeView, []⟩ : CoinHistory).run noUncompressedKeys
        [.connect stakeSpender 150, .disconnect] = some ⟨view', []⟩ ∧
      checkTxInputs mainParams false view' 110 stakeSpender = true) :=
  ⟨by decide +kernel, by decide +kernel,
    CoinHistory.exists_run noUncompressedKeys stakeView [.flush 1]
      (fun view => checkTxInputs mainParams false view 110 stakeSpender) (by decide +kernel),
    CoinHistory.exists_run noUncompressedKeys stakeView [.connect stakeSpender 150, .disconnect]
      (fun view => checkTxInputs mainParams false view 110 stakeSpender) (by decide +kernel)⟩

end Electrum
