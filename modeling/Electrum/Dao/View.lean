import Electrum.Dao.Objects

/-!
# The state view

`CStateViewCache` flattened to one map per kind of object.  An object for which `IsNull`
holds counts as absent in every reader of the source, so writing one erases its key.
-/

namespace Electrum

/-- `CCoins`: the unspent outputs of one transaction; `none` is a spent output. -/
structure CCoins where
  fCoinBase : Bool
  fCoinStake : Bool
  vout : List (Option CTxOut)
  nHeight : Nat
  nVersion : Int
  deriving DecidableEq

/-- The content of a `CStateViewCache`. -/
structure CStateView where
  coins : Map UInt256 CCoins
  proposals : Map UInt256 CProposal
  paymentRequests : Map UInt256 CPaymentRequest
  votes : Map (List UInt8) CVoteList
  consultations : Map UInt256 CConsultation
  answers : Map UInt256 CConsultationAnswer
  consensus : Map Nat CConsensusParameter
  deriving DecidableEq

namespace CStateView

/-- The view before the first block. -/
def empty : CStateView := ⟨∅, ∅, ∅, ∅, ∅, ∅, ∅⟩

def getProposal (view : CStateView) (hash : UInt256) : Option CProposal :=
  view.proposals[hash]?

def getPaymentRequest (view : CStateView) (hash : UInt256) : Option CPaymentRequest :=
  view.paymentRequests[hash]?

def getConsultation (view : CStateView) (hash : UInt256) : Option CConsultation :=
  view.consultations[hash]?

def getConsultationAnswer (view : CStateView) (hash : UInt256) : Option CConsultationAnswer :=
  view.answers[hash]?

/-! ## A check of every object of one kind can be run -/

section

variable (view : CStateView)

instance (P : UInt256 → CProposal → Prop) [∀ hash p, Decidable (P hash p)] :
    Decidable (∀ hash p, view.getProposal hash = some p → P hash p) :=
  Map.decidableForall view.proposals P

instance (P : UInt256 → CPaymentRequest → Prop) [∀ hash r, Decidable (P hash r)] :
    Decidable (∀ hash r, view.getPaymentRequest hash = some r → P hash r) :=
  Map.decidableForall view.paymentRequests P

instance (P : UInt256 → CConsultation → Prop) [∀ hash c, Decidable (P hash c)] :
    Decidable (∀ hash c, view.getConsultation hash = some c → P hash c) :=
  Map.decidableForall view.consultations P

instance (P : UInt256 → CConsultationAnswer → Prop) [∀ hash a, Decidable (P hash a)] :
    Decidable (∀ hash a, view.getConsultationAnswer hash = some a → P hash a) :=
  Map.decidableForall view.answers P

instance (P : UInt256 → Prop) [DecidablePred P] :
    Decidable (∀ hash, (view.getProposal hash).isSome = true → P hash) :=
  Map.decidableForallKey view.proposals P

instance (P : UInt256 → Prop) [DecidablePred P] :
    Decidable (∀ hash, (view.getPaymentRequest hash).isSome = true → P hash) :=
  Map.decidableForallKey view.paymentRequests P

end

/-! ## Writing an object back -/

def setProposal (view : CStateView) (hash : UInt256) (p : CProposal) : CStateView :=
  { view with proposals := Map.setUnless CProposal.isNull view.proposals hash p }

def setPaymentRequest (view : CStateView) (hash : UInt256) (r : CPaymentRequest) : CStateView :=
  { view with
    paymentRequests := Map.setUnless CPaymentRequest.isNull view.paymentRequests hash r }

def setConsultation (view : CStateView) (hash : UInt256) (c : CConsultation) : CStateView :=
  { view with
    consultations := Map.setUnless CConsultation.isNull view.consultations hash c }

def setConsultationAnswer (view : CStateView) (hash : UInt256) (a : CConsultationAnswer) :
    CStateView :=
  { view with answers := Map.setUnless CConsultationAnswer.isNull view.answers hash a }

def setCachedVoter (view : CStateView) (voter : List UInt8) (v : CVoteList) : CStateView :=
  { view with votes := Map.setUnless CVoteList.isNull view.votes voter v }

/-- `ModifyConsensusParameter(pid)` followed by `edit` on the entry. -/
def modifyConsensusParameter (view : CStateView) (pid : Nat)
    (edit : CConsensusParameter → CConsensusParameter) : CStateView :=
  { view with
    consensus := Map.setUnless CConsensusParameter.isNull view.consensus pid
      (edit (view.consensus[pid]?.getD ⟨∅⟩)) }

/-! ## Adding and removing objects -/

/-- `AddProposal`; an object that is already there is kept. -/
def addProposal (view : CStateView) (p : CProposal) : CStateView :=
  if view.proposals.contains p.hash then view else view.setProposal p.hash p

def addPaymentRequest (view : CStateView) (r : CPaymentRequest) : CStateView :=
  if view.paymentRequests.contains r.hash then view else view.setPaymentRequest r.hash r

def addConsultation (view : CStateView) (c : CConsultation) : CStateView :=
  if view.consultations.contains c.hash then view else view.setConsultation c.hash c

/-- The default-constructed consultation, which `ModifyConsultation` starts from when the
key is unknown. -/
def nullConsultation : CConsultation :=
  { mapState := ∅, hash := 0, txblockhash := 0, nVersion := 0, nVotingCycle := 0,
    strDZeel := "", nSupport := 0, nMin := 0, nMax := 0, mapVotes := ∅, vAnswers := [],
    nExclude := 0 }

/-- `AddConsultationAnswer`, which also lists the answer in its parent. -/
def addConsultationAnswer (view : CStateView) (a : CConsultationAnswer) : CStateView :=
  if view.answers.contains a.hash then view
  else
    let parent := (view.getConsultation a.parent).getD nullConsultation
    let view := view.setConsultation a.parent { parent with vAnswers := parent.vAnswers ++ [a.hash] }
    view.setConsultationAnswer a.hash a

def removeProposal (view : CStateView) (hash : UInt256) : CStateView :=
  { view with proposals := view.proposals.erase hash }

def removePaymentRequest (view : CStateView) (hash : UInt256) : CStateView :=
  { view with paymentRequests := view.paymentRequests.erase hash }

/-- The loop of `RemoveConsultationAnswer` over `vAnswers`: after an erasure the iterator
already stands on the next element and is advanced once more. -/
def eraseAnswer (cid : UInt256) : List UInt256 → List UInt256
  | [] => []
  | [x] => if x == cid then [] else [x]
  | x :: y :: rest =>
    if x == cid then y :: eraseAnswer cid rest else x :: eraseAnswer cid (y :: rest)

def removeConsultationAnswer (view : CStateView) (cid : UInt256) : CStateView :=
  match view.getConsultationAnswer cid with
  | none => view
  | some a =>
    let parent := (view.getConsultation a.parent).getD nullConsultation
    let view := view.setConsultation a.parent
      { parent with vAnswers := eraseAnswer cid parent.vAnswers }
    { view with answers := view.answers.erase cid }

def removeConsultation (view : CStateView) (cid : UInt256) : CStateView :=
  match view.getConsultation cid with
  | none => view
  | some c =>
    let view := c.vAnswers.foldl removeConsultationAnswer view
    { view with consultations := view.consultations.erase cid }

end CStateView

/-- What the node's other parts provide and the modelled code only reads: the network's
parameters, the block index, and which deployments are active for the child of a block. -/
structure Env where
  params : Params
  mapBlockIndex : BlockMap
  isActive : DeploymentPos → Chain → Bool

/-- `GetConsensusParameter`. -/
def getConsensusParameter (env : Env) (view : CStateView) (pos : ConsensusParamsPos) : Nat :=
  ((view.consensus[pos.idx]?).bind CConsensusParameter.get).getD (env.params.vParameters pos)

theorem getConsensusParameter_congr {view other : CStateView}
    (h : view.consensus = other.consensus) (env : Env) (pos : ConsensusParamsPos) :
    getConsensusParameter env view pos = getConsensusParameter env other pos := by
  unfold getConsensusParameter
  rw [h]

/-- What `GetConsensusStateHash` digests; the digest is represented by its content. -/
def getConsensusStateHash (env : Env) (view : CStateView) : List Nat :=
  ConsensusParamsPos.all.map (getConsensusParameter env view)

end Electrum
