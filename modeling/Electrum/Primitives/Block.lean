import Electrum.Primitives.Script

/-!
# Transactions, blocks and the block index

A transaction carries its hash as a field; the hash function is not modelled.  A chain of
block index entries is a list with the tip first, so that `pprev` is the tail.
-/

namespace Electrum

structure COutPoint where
  hash : UInt256
  n : Nat
  deriving DecidableEq, Repr

def COutPoint.isNull (o : COutPoint) : Bool := o.hash == 0 && o.n == 2 ^ 32 - 1

structure CTxIn where
  prevout : COutPoint
  deriving DecidableEq, Repr

structure CTxOut where
  nValue : Int
  scriptPubKey : CScript
  deriving DecidableEq, Repr

namespace CTxOut

def isEmpty (out : CTxOut) : Bool := out.nValue == 0 && out.scriptPubKey.isEmpty

def isCommunityFundContribution (out : CTxOut) : Bool :=
  CScript.isCommunityFundContribution out.scriptPubKey

def isVote (out : CTxOut) : Bool :=
  CScript.isProposalVote out.scriptPubKey || CScript.isPaymentRequestVote out.scriptPubKey

def isProposalVote (out : CTxOut) : Bool := CScript.isProposalVote out.scriptPubKey

def isPaymentRequestVote (out : CTxOut) : Bool := CScript.isPaymentRequestVote out.scriptPubKey

def isSupportVote (out : CTxOut) : Bool := CScript.isSupportVote out.scriptPubKey

def isConsultationVote (out : CTxOut) : Bool := CScript.isConsultationVote out.scriptPubKey

end CTxOut

structure CTransaction where
  hash : UInt256
  nVersion : Int
  nTime : Nat
  vin : List CTxIn
  vout : List CTxOut
  strDZeel : String
  deriving DecidableEq, Repr

namespace CTransaction

def TXDZEEL_VERSION_V2 : Int := 3
def PROPOSAL_VERSION : Int := 4
def PAYMENT_REQUEST_VERSION : Int := 5
def CONSULTATION_VERSION : Int := 6
def ANSWER_VERSION : Int := 7
def VOTE_VERSION : Int := 8

def isCoinBase (tx : CTransaction) : Bool :=
  match tx.vin with
  | [i] => i.prevout.isNull
  | _ => false

def isCoinStake (tx : CTransaction) : Bool :=
  match tx.vin, tx.vout with
  | i :: _, o :: _ :: _ => !i.prevout.isNull && o.isEmpty
  | _, _ => false

/-- Sum of the outputs; the range checks of `GetValueOut` are those of `checkTransaction`. -/
def getValueOut (tx : CTransaction) : Int := (tx.vout.map (·.nValue)).sum

/-- Sum of the outputs that contribute to the fund. -/
def getValueOutCFund (tx : CTransaction) : Int :=
  ((tx.vout.filter (·.isCommunityFundContribution)).map (·.nValue)).sum

end CTransaction

structure CBlock where
  hash : UInt256
  nTime : Nat
  nNonce : Nat
  vtx : List CTransaction
  deriving DecidableEq, Repr

namespace CBlock

def isProofOfStake (block : CBlock) : Bool :=
  match block.vtx with
  | _ :: tx :: _ => tx.isCoinStake
  | _ => false

def isProofOfWork (block : CBlock) : Bool := !block.isProofOfStake

end CBlock

/-- The part of `CBlockIndex` that does not change once the block is known. -/
structure CBlockIndex where
  phashBlock : UInt256
  nHeight : Nat
  nTime : Nat
  nNonce : Nat
  deriving DecidableEq, Repr

namespace CBlockIndex

/-- The staker was excluded from voting: `nNonce & 1`. -/
def excluded (pindex : CBlockIndex) : Bool := pindex.nNonce % 2 == 1

end CBlockIndex

/-- A block with its ancestors, tip first. -/
abbrev Chain := List CBlockIndex

/-- `GetAncestor`. -/
def Chain.getAncestor (chain : Chain) (height : Nat) : Option CBlockIndex :=
  chain.find? fun pindex => pindex.nHeight == height

end Electrum
