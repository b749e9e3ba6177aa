import Electrum.Dao.View

/-!
# Transactions against the coin view

`CheckTransaction`, `CheckTxInputs` and `UpdateCoins`, over the unspent outputs of the view.
-/

namespace Electrum

def moneyRange (nValue : Int) : Bool := decide (0 ≤ nValue) && decide (nValue ≤ MAX_MONEY)

theorem moneyRange_iff {nValue : Int} :
    moneyRange nValue = true ↔ 0 ≤ nValue ∧ nValue ≤ 9223372036854775807 := by
  rw [moneyRange, Bool.and_eq_true, decide_eq_true_iff, decide_eq_true_iff, MAX_MONEY]

/-- The running total of the outputs stays in `MoneyRange`. -/
def outputsInRange (fUser : Bool) : List CTxOut → Int → Bool
  | [], _ => true
  | out :: rest, nValueOut =>
    !(fUser && out.isEmpty) && decide (0 ≤ out.nValue) && decide (out.nValue ≤ MAX_MONEY) &&
      moneyRange (nValueOut + out.nValue) && outputsInRange fUser rest (nValueOut + out.nValue)

/-- `CheckTransaction`, without the size limits and the length of the coinbase script. -/
def checkTransaction (tx : CTransaction) : Bool :=
  !tx.vin.isEmpty && !tx.vout.isEmpty &&
    outputsInRange (!tx.isCoinBase && !tx.isCoinStake) tx.vout 0 &&
    decide (tx.vin.map (·.prevout)).Nodup &&
    (tx.isCoinBase || tx.vin.all fun txin => !txin.prevout.isNull)

/-- `IsNull`, the mark of a spent output. -/
def CTxOut.isNull (out : CTxOut) : Bool := out.nValue == -1

namespace CCoins

/-- `Cleanup`: drop the spent outputs at the end. -/
def cleanup (vout : List (Option CTxOut)) : List (Option CTxOut) :=
  (vout.reverse.dropWhile (·.isNone)).reverse

/-- `FromTx`; outputs that can never be spent are dropped at once. -/
def fromTx (tx : CTransaction) (nHeight : Nat) : CCoins where
  fCoinBase := tx.isCoinBase
  fCoinStake := tx.isCoinStake
  vout := cleanup (tx.vout.map fun out =>
    if CScript.isUnspendable out.scriptPubKey || out.isNull then none else some out)
  nHeight := nHeight
  nVersion := tx.nVersion

/-- The output at a position, if it is unspent. -/
def available (coins : CCoins) (n : Nat) : Option CTxOut := coins.vout[n]?.join

/-- `Spend`. -/
def spend (coins : CCoins) (n : Nat) : CCoins :=
  { coins with vout := cleanup (coins.vout.set n none) }

/-- Nothing is left to spend. -/
def isPruned (coins : CCoins) : Bool := coins.vout.isEmpty

end CCoins

namespace CStateView

/-- The unspent output an input refers to. -/
def outputFor (view : CStateView) (prevout : COutPoint) : Option CTxOut :=
  (view.coins[prevout.hash]?).bind (·.available prevout.n)

def haveInputs (view : CStateView) (tx : CTransaction) : Bool :=
  tx.isCoinBase || tx.vin.all fun txin => (view.outputFor txin.prevout).isSome

/-- `GetValueIn`, for inputs that are available. -/
def getValueIn (view : CStateView) (tx : CTransaction) : Int :=
  if tx.isCoinBase then 0
  else (tx.vin.map fun txin => ((view.outputFor txin.prevout).map (·.nValue)).getD 0).sum

def setCoins (view : CStateView) (txid : UInt256) (coins : CCoins) : CStateView :=
  { view with coins := Map.setUnless CCoins.isPruned view.coins txid coins }

end CStateView

/-- The maturity rule of `CheckTxInputs` for one spent output. -/
def coinbaseMature (params : Params) (fTestnet : Bool) (coins : CCoins) (nSpendHeight : Nat) :
    Bool :=
  let depth : Int := (nSpendHeight : Int) - coins.nHeight
  !((coins.fCoinBase || coins.fCoinStake) && !fTestnet) ||
    !(decide (depth < params.nCoinbaseMaturity) && decide (0 < depth))

/-- The loop of `CheckTxInputs` over the inputs. -/
def inputsInRange (params : Params) (fTestnet : Bool) (view : CStateView) (nSpendHeight : Nat) :
    List CTxIn → Int → Bool
  | [], _ => true
  | txin :: rest, nValueIn =>
    match view.coins[txin.prevout.hash]?, view.outputFor txin.prevout with
    | some coins, some out =>
      coinbaseMature params fTestnet coins nSpendHeight && moneyRange out.nValue &&
        moneyRange (nValueIn + out.nValue) &&
        inputsInRange params fTestnet view nSpendHeight rest (nValueIn + out.nValue)
    | _, _ => false

/-- `CheckTxInputs`.  A coinstake may pay out more than it spends. -/
def checkTxInputs (params : Params) (fTestnet : Bool) (view : CStateView) (nSpendHeight : Nat)
    (tx : CTransaction) : Bool :=
  view.haveInputs tx && inputsInRange params fTestnet view nSpendHeight tx.vin 0 &&
    (tx.isCoinBase || tx.isCoinStake ||
      (decide (tx.getValueOut ≤ view.getValueIn tx) &&
        moneyRange (view.getValueIn tx - tx.getValueOut)))

/-- `CTxInUndo`: the spent output, and for the last output of a transaction its data. -/
structure CTxInUndo where
  txout : CTxOut
  fCoinBase : Bool
  nHeight : Nat
  nVersion : Int
  deriving DecidableEq

/-- `UpdateCoins` for one input; `none` is the assertion that the output is there. -/
def spendInput (st : CStateView × List CTxInUndo) (txin : CTxIn) :
    Option (CStateView × List CTxInUndo) :=
  match st.1.coins[txin.prevout.hash]?, st.1.outputFor txin.prevout with
  | some coins, some out =>
    let coins := coins.spend txin.prevout.n
    let undo : CTxInUndo := if coins.isPruned then
      ⟨out, coins.fCoinBase, coins.nHeight, coins.nVersion⟩ else ⟨out, false, 0, 0⟩
    some (st.1.setCoins txin.prevout.hash coins, st.2 ++ [undo])
  | _, _ => none

/-- `UpdateCoins`, with the undo data of the transaction. -/
def updateCoins (view : CStateView) (tx : CTransaction) (nHeight : Nat) :
    Option (CStateView × List CTxInUndo) :=
  (if tx.isCoinBase then some (view, []) else tx.vin.foldlM spendInput (view, [])).map fun st =>
    (st.1.setCoins tx.hash (.fromTx tx nHeight), st.2)

end Electrum
