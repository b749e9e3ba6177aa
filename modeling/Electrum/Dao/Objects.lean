import Electrum.Lib.OrderedMap
import Electrum.Lib.MachineInt
import Electrum.Consensus.Params

/-!
# The objects of the DAO

Proposals, payment requests, consultations, their answers, and the history of a consensus
parameter.  The `fDirty` marks of the source only steer logging and are left out.
-/

namespace Electrum

/-- `DAOFlags`, the state of an object. -/
inductive Flags
  | nil
  | accepted
  | rejected
  | expired
  | pendingFunds
  | pendingVotingPreq
  | paid
  | passed
  | reflection
  | supported
  deriving DecidableEq, Repr

/-- The block index, `mapBlockIndex`. -/
abbrev BlockMap := Map UInt256 CBlockIndex

/-- `mapState`: the state an object entered at a block. -/
abbrev StateMap := Map UInt256 Flags

namespace StateMap

/-- The walk over `mapState` shared by the `GetLastState...` functions of every class: the
first entry of greatest positive height among those that `keep` admits and whose block is
known. -/
def lastEntry (idx : BlockMap) (keep : Flags → Bool) (mapState : StateMap) :
    Option (CBlockIndex × Flags) :=
  mapState.toList.foldl (fun ret it =>
    if !keep it.2 then ret
    else match idx[it.1]? with
      | none => ret
      | some pindex =>
        if (ret.map (·.1.nHeight)).getD 0 < pindex.nHeight then some (pindex, it.2) else ret)
    none

def getLastState (idx : BlockMap) (mapState : StateMap) : Flags :=
  ((lastEntry idx (fun _ => true) mapState).map (·.2)).getD .nil

def getLastStateBlockIndexForState (idx : BlockMap) (state : Flags) (mapState : StateMap) :
    Option CBlockIndex :=
  (lastEntry idx (· == state) mapState).map (·.1)

def setState (pindex : CBlockIndex) (state : Flags) (mapState : StateMap) : StateMap :=
  mapState.insert pindex.phashBlock state

def clearState (pindex : CBlockIndex) (mapState : StateMap) : StateMap :=
  mapState.erase pindex.phashBlock

end StateMap

/-- `nVersion & flag`, for versions kept as `int` or `uint64_t`. -/
def versionHas (nVersion : Int) (flag : Nat) : Bool := toU64 nVersion &&& flag != 0

structure CPaymentRequest where
  nAmount : Int
  mapState : StateMap
  hash : UInt256
  proposalhash : UInt256
  txblockhash : UInt256
  nVotesYes : Int
  nVotesNo : Int
  nVotesAbs : Int
  nExclude : Int
  strDZeel : String
  nVersion : Int
  nVotingCycle : Nat
  deriving DecidableEq

namespace CPaymentRequest

def BASE_VERSION : Nat := 2
def REDUCED_QUORUM_VERSION : Nat := 4
def ABSTAIN_VOTE_VERSION : Nat := 8
def EXCLUDE_VERSION : Nat := 16

def isNull (r : CPaymentRequest) : Bool :=
  r.nAmount == 0 && r.nVotesYes == 0 && r.nVotesNo == 0 && r.nExclude == 0 &&
    r.strDZeel == "" && r.mapState.isEmpty

def getLastState (idx : BlockMap) (r : CPaymentRequest) : Flags :=
  r.mapState.getLastState idx

def setState (r : CPaymentRequest) (pindex : CBlockIndex) (state : Flags) : CPaymentRequest :=
  { r with mapState := r.mapState.setState pindex state }

def clearState (r : CPaymentRequest) (pindex : CBlockIndex) : CPaymentRequest :=
  { r with mapState := r.mapState.clearState pindex }

end CPaymentRequest

structure CProposal where
  nAmount : Int
  nFee : Int
  ownerAddress : String
  paymentAddress : String
  nDeadline : Nat
  mapState : StateMap
  nVotesYes : Int
  nVotesNo : Int
  nVotesAbs : Int
  nExclude : Int
  strDZeel : String
  hash : UInt256
  txblockhash : UInt256
  nVersion : Int
  nVotingCycle : Nat
  deriving DecidableEq

namespace CProposal

def BASE_VERSION : Nat := 2
def REDUCED_QUORUM_VERSION : Nat := 4
def ABSTAIN_VOTE_VERSION : Nat := 8
def PAYMENT_ADDRESS_VERSION : Nat := 16
def EXCLUDE_VERSION : Nat := 32

def isNull (p : CProposal) : Bool :=
  p.nAmount == 0 && p.nFee == 0 && p.ownerAddress == "" && p.paymentAddress == "" &&
    p.nVotesYes == 0 && p.nVotesNo == 0 && p.nExclude == 0 && p.nDeadline == 0 &&
    p.strDZeel == "" && p.mapState.isEmpty

def getLastState (idx : BlockMap) (p : CProposal) : Flags :=
  p.mapState.getLastState idx

def setState (p : CProposal) (pindex : CBlockIndex) (state : Flags) : CProposal :=
  { p with mapState := p.mapState.setState pindex state }

def clearState (p : CProposal) (pindex : CBlockIndex) : CProposal :=
  { p with mapState := p.mapState.clearState pindex }

/-- Older proposals are paid to their owner. -/
def getPaymentAddress (p : CProposal) : String :=
  if versionHas p.nVersion PAYMENT_ADDRESS_VERSION then p.paymentAddress else p.ownerAddress

end CProposal

structure CConsultationAnswer where
  nVersion : Int
  sAnswer : String
  nVotes : Int
  nSupport : Int
  nExclude : Int
  mapState : StateMap
  hash : UInt256
  parent : UInt256
  txblockhash : UInt256
  txhash : UInt256
  deriving DecidableEq

namespace CConsultationAnswer

def BASE_VERSION : Nat := 1
def EXCLUDE_VERSION : Nat := 2

def isNull (a : CConsultationAnswer) : Bool :=
  a.sAnswer == "" && a.nVotes == 0 && a.nSupport == 0 && a.nVersion == 0 &&
    a.mapState.isEmpty && a.nExclude == 0 && a.hash == 0 && a.txhash == 0 && a.parent == 0 &&
    a.txblockhash == 0

def getLastState (idx : BlockMap) (a : CConsultationAnswer) : Flags :=
  a.mapState.getLastState idx

def setState (a : CConsultationAnswer) (pindex : CBlockIndex) (state : Flags) :
    CConsultationAnswer :=
  { a with mapState := a.mapState.setState pindex state }

def clearState (a : CConsultationAnswer) (pindex : CBlockIndex) : CConsultationAnswer :=
  { a with mapState := a.mapState.clearState pindex }

end CConsultationAnswer

structure CConsultation where
  mapState : StateMap
  hash : UInt256
  txblockhash : UInt256
  nVersion : Nat
  nVotingCycle : Nat
  strDZeel : String
  nSupport : Int
  nMin : Nat
  nMax : Nat
  /-- votes for the values of a range, and abstentions under `uint64_t(-1)` -/
  mapVotes : Map Nat Nat
  vAnswers : List UInt256
  nExclude : Int
  deriving DecidableEq

namespace CConsultation

def BASE_VERSION : Nat := 1
def ANSWER_IS_A_RANGE_VERSION : Nat := 2
def MORE_ANSWERS_VERSION : Nat := 4
def CONSENSUS_PARAMETER_VERSION : Nat := 8
def EXCLUDE_VERSION : Nat := 16

def isNull (c : CConsultation) : Bool :=
  c.hash == 0 && c.txblockhash == 0 && c.mapState.isEmpty && c.nVersion == 0 &&
    c.nVotingCycle == 0 && c.strDZeel == "" && c.nSupport == 0 && c.nMin == 0 &&
    c.nMax == 0 && c.vAnswers.isEmpty && c.nExclude == 0

def getLastState (idx : BlockMap) (c : CConsultation) : Flags :=
  c.mapState.getLastState idx

def setState (c : CConsultation) (pindex : CBlockIndex) (state : Flags) : CConsultation :=
  { c with mapState := c.mapState.setState pindex state }

def clearState (c : CConsultation) (pindex : CBlockIndex) : CConsultation :=
  { c with mapState := c.mapState.clearState pindex }

def isRange (c : CConsultation) : Bool := versionHas c.nVersion ANSWER_IS_A_RANGE_VERSION

def isAboutConsensusParameter (c : CConsultation) : Bool :=
  versionHas c.nVersion CONSENSUS_PARAMETER_VERSION

end CConsultation

/-- `CConsensusParameter`: the values a parameter was set to, by height. -/
structure CConsensusParameter where
  list : Map Nat Nat
  deriving DecidableEq

namespace CConsensusParameter

def isNull (c : CConsensusParameter) : Bool := c.list.isEmpty

/-- `Get`: the value at the greatest height. -/
def get (c : CConsensusParameter) : Option Nat :=
  (c.list.toList.foldl (fun ret it =>
    if it.1 < (ret.map (·.1)).getD 0 then ret else some it) none).map (·.2)

def set (c : CConsensusParameter) (height val : Nat) : CConsensusParameter :=
  { c with list := c.list.insert height val }

def clear (c : CConsensusParameter) (height : Nat) : CConsensusParameter :=
  { c with list := c.list.erase height }

end CConsensusParameter

/-- `CVoteList`: the votes of one staker, by the height at which they were cast. -/
structure CVoteList where
  list : Map Nat (Map UInt256 Int)
  deriving DecidableEq

namespace CVoteList

/-- No height has a vote. -/
def isNull (v : CVoteList) : Bool := v.list.toList.all fun it => it.2.isEmpty

/-- `Get`: the vote for `hash` at the greatest height that has one. -/
def get (v : CVoteList) (hash : UInt256) : Option Int :=
  (v.list.toList.foldl (fun ret it =>
    match it.2[hash]? with
    | none => ret
    | some vote => if (ret.map (·.1)).getD 0 < it.1 then some (it.1, vote) else ret)
    none).map (·.2)

/-- `Set`, which keeps the list when the vote repeats the last one. -/
def set (v : CVoteList) (height : Nat) (hash : UInt256) (vote : Int) : CVoteList :=
  if v.get hash == some vote then v
  else { v with list := v.list.insert height ((v.list[height]?.getD ∅).insert hash vote) }

/-- `Clear(height)`. -/
def clear (v : CVoteList) (height : Nat) : CVoteList := { v with list := v.list.erase height }

/-- `GetList`: the last vote for every object. -/
def getList (v : CVoteList) : Map UInt256 Int :=
  (v.list.toList.foldl (fun (ret : Map UInt256 Int × Map UInt256 Nat) it =>
    it.2.toList.foldl (fun (ret : Map UInt256 Int × Map UInt256 Nat) it2 =>
      if ret.2[it2.1]?.getD 0 < it.1 then
        (ret.1.insert it2.1 it2.2, ret.2.insert it2.1 it.1)
      else ret) ret) (∅, ∅)).1

end CVoteList

/-- The default-constructed proposal. -/
def nullProposal : CProposal :=
  { nAmount := 0, nFee := 0, ownerAddress := "", paymentAddress := "", nDeadline := 0,
    mapState := ∅, nVotesYes := 0, nVotesNo := 0, nVotesAbs := 0, nExclude := 0, strDZeel := "",
    hash := 0, txblockhash := 0, nVersion := 0, nVotingCycle := 0 }

def nullPaymentRequest : CPaymentRequest :=
  { nAmount := 0, mapState := ∅, hash := 0, proposalhash := 0, txblockhash := 0, nVotesYes := 0,
    nVotesNo := 0, nVotesAbs := 0, nExclude := 0, strDZeel := "", nVersion := 0,
    nVotingCycle := 0 }

end Electrum
