import Electrum.Dao.View
import Electrum.Lib.Fold
import Electrum.Lib.WriteBack

/-!
# The caches of the DAO's objects

`CStateViewCache` keeps one map for each kind of object over another view, which is again a cache
or the database.  A null object in a cache means that the object is gone, every cached object is
dirty, and `Flush` writes all of them to the view below; the database erases the null ones.

A stack of such caches shows the flattened view of `Electrum.Dao.View`, and every operation on it
is the operation on that view, as long as no higher cache holds an entry under the keys that are
written.  One thing can change what is visible: the database does not keep the fields of an object
that its version does not announce.

Main results:
* `DaoSimulates.step` — one operation on the stack is one operation on the flattened view
* `dao_run` — and so is any sequence of them
* `dao_flush_drops_votingCycle` — a flush that changes what `GetProposal` returns
-/

namespace Electrum

open CStateView

/-! ## Objects in the database -/

/-- A field that is written only for some versions and is read into a default otherwise. -/
def keptFor {α : Type} (nVersion : Int) (flag : Nat) (a zero : α) : α :=
  if versionHas nVersion flag then a else zero

def nullConsultationAnswer : CConsultationAnswer :=
  { nVersion := 0, sAnswer := "", nVotes := 0, nSupport := 0, nExclude := 0, mapState := ∅,
    hash := 0, parent := 0, txblockhash := 0, txhash := 0 }

/-- `SerializationOp` for writing and then for reading. -/
def CProposal.stored (p : CProposal) : CProposal :=
  { p with
    nVotingCycle := keptFor p.nVersion BASE_VERSION p.nVotingCycle 0
    nVotesAbs := keptFor p.nVersion ABSTAIN_VOTE_VERSION p.nVotesAbs 0
    paymentAddress := keptFor p.nVersion PAYMENT_ADDRESS_VERSION p.paymentAddress ""
    nExclude := keptFor p.nVersion EXCLUDE_VERSION p.nExclude 0 }

def CPaymentRequest.stored (r : CPaymentRequest) : CPaymentRequest :=
  { r with
    nVotingCycle := keptFor r.nVersion BASE_VERSION r.nVotingCycle 0
    nVotesAbs := keptFor r.nVersion ABSTAIN_VOTE_VERSION r.nVotesAbs 0
    nExclude := keptFor r.nVersion EXCLUDE_VERSION r.nExclude 0 }

def CConsultationAnswer.stored (a : CConsultationAnswer) : CConsultationAnswer :=
  { a with nExclude := keptFor a.nVersion EXCLUDE_VERSION a.nExclude 0 }

def CConsultation.stored (c : CConsultation) : CConsultation :=
  { c with nExclude := keptFor c.nVersion EXCLUDE_VERSION c.nExclude 0 }

/-- `SetNull`, which does not reset `txblockhash`. -/
def CProposal.setNull (p : CProposal) : CProposal :=
  { nullProposal with txblockhash := p.txblockhash }

/-- An edit between a call of `Modify...` and the destructor of the modifier, which resets a null
object. -/
def resetNull {α : Type} (isNull : α → Bool) (setNull edit : α → α) (a : α) : α :=
  if isNull (edit a) then setNull (edit a) else edit a

/-- One kind of object: a lookup that meets a null object does not report it, a loaded object is
dirty at once, and nothing is marked fresh.  The database is a map of objects as it gives them
back. -/
def daoKind {α : Type} (isNull : α → Bool) (null : α) (stored : α → α)
    (hNull : isNull null = true) : CacheKind α α where
  isPruned := isNull
  empty := null
  found a := !isNull a
  loadDirty := true
  tracksFresh := false
  write := stored
  read := some
  pruned_empty := hNull
  found_unpruned a h := by rw [h]; rfl

def proposalKind : CacheKind CProposal CProposal :=
  daoKind CProposal.isNull nullProposal CProposal.stored rfl

def paymentRequestKind : CacheKind CPaymentRequest CPaymentRequest :=
  daoKind CPaymentRequest.isNull nullPaymentRequest CPaymentRequest.stored rfl

def voteKind : CacheKind CVoteList CVoteList := daoKind CVoteList.isNull ⟨∅⟩ id rfl

def consultationKind : CacheKind CConsultation CConsultation :=
  daoKind CConsultation.isNull nullConsultation CConsultation.stored rfl

def answerKind : CacheKind CConsultationAnswer CConsultationAnswer :=
  daoKind CConsultationAnswer.isNull nullConsultationAnswer CConsultationAnswer.stored rfl

def parameterKind : CacheKind CConsensusParameter CConsensusParameter :=
  daoKind CConsensusParameter.isNull ⟨∅⟩ id rfl

/-! ## The operations -/

/-- Caches over the database, kind by kind. -/
structure DaoStack where
  proposals : CacheStack UInt256 CProposal CProposal
  paymentRequests : CacheStack UInt256 CPaymentRequest CPaymentRequest
  votes : CacheStack (List UInt8) CVoteList CVoteList
  consultations : CacheStack UInt256 CConsultation CConsultation
  answers : CacheStack UInt256 CConsultationAnswer CConsultationAnswer
  consensus : CacheStack Nat CConsensusParameter CConsensusParameter

/-- What can be called on the cache at some depth.  A read is a call of `Get...` or `Have...`;
`GetAll...` changes nothing. -/
inductive DaoOp where
  | readProposal (depth : Nat) (pid : UInt256)
  | readPaymentRequest (depth : Nat) (prid : UInt256)
  | readCachedVoter (depth : Nat) (voter : List UInt8)
  | readConsultation (depth : Nat) (cid : UInt256)
  | readConsultationAnswer (depth : Nat) (cid : UInt256)
  | readConsensusParameter (depth : Nat) (pid : Nat)
  | addProposal (depth : Nat) (proposal : CProposal)
  | addPaymentRequest (depth : Nat) (prequest : CPaymentRequest)
  | addCachedVoter (depth : Nat) (voter : List UInt8) (vote : CVoteList)
  | addConsultation (depth : Nat) (consultation : CConsultation)
  | addConsultationAnswer (depth : Nat) (answer : CConsultationAnswer)
  | modifyProposal (depth : Nat) (pid : UInt256) (edit : CProposal → CProposal)
  | modifyPaymentRequest (depth : Nat) (prid : UInt256) (edit : CPaymentRequest → CPaymentRequest)
  | modifyVote (depth : Nat) (voter : List UInt8) (edit : CVoteList → CVoteList)
  | modifyConsultation (depth : Nat) (cid : UInt256) (edit : CConsultation → CConsultation)
  | modifyConsultationAnswer (depth : Nat) (cid : UInt256)
      (edit : CConsultationAnswer → CConsultationAnswer)
  | modifyConsensusParameter (depth : Nat) (pid : Nat)
      (edit : CConsensusParameter → CConsensusParameter)
  | removeProposal (depth : Nat) (pid : UInt256)
  | removePaymentRequest (depth : Nat) (prid : UInt256)
  | removeCachedVoter (depth : Nat) (voter : List UInt8)
  | removeConsultation (depth : Nat) (cid : UInt256)
  | removeConsultationAnswer (depth : Nat) (cid : UInt256)
  | flush (depth : Nat)

/-- The cache at some depth has an entry under the key. -/
def CacheStack.cached {κ α β : Type} [Ord κ] [Std.TransOrd κ] (s : CacheStack κ α β) (depth : Nat)
    (k : κ) : Bool :=
  (s.layers.drop depth).head?.any fun l => (l[k]?).isSome

namespace DaoStack

/-- `GetProposal` of the cache at some depth, and so on; `Have...` says whether there is one. -/
def getProposal (s : DaoStack) (depth : Nat) (pid : UInt256) : Option CProposal :=
  s.proposals.get proposalKind depth pid

def getPaymentRequest (s : DaoStack) (depth : Nat) (prid : UInt256) : Option CPaymentRequest :=
  s.paymentRequests.get paymentRequestKind depth prid

def getCachedVoter (s : DaoStack) (depth : Nat) (voter : List UInt8) : Option CVoteList :=
  s.votes.get voteKind depth voter

/-- `GetAllVotes`.  The cursor of the database starts at a key of 32 zero bytes, which lies behind
the empty key. -/
def getAllVotes (s : DaoStack) : Option (Map (List UInt8) CVoteList) :=
  voteKind.listAll (s.votes.db.erase []) s.votes.layers

def getConsultation (s : DaoStack) (depth : Nat) (cid : UInt256) : Option CConsultation :=
  s.consultations.get consultationKind depth cid

def getConsultationAnswer (s : DaoStack) (depth : Nat) (cid : UInt256) :
    Option CConsultationAnswer :=
  s.answers.get answerKind depth cid

def getConsensusParameter (s : DaoStack) (depth : Nat) (pid : Nat) : Option CConsensusParameter :=
  s.consensus.get parameterKind depth pid

/-- `ModifyPaymentRequest`.  When the request is null the destructor of its modifier resets the
entry under the same key in the map of the proposals. -/
def modifyPaymentRequest (s : DaoStack) (depth : Nat) (prid : UInt256)
    (edit : CPaymentRequest → CPaymentRequest) : DaoStack :=
  let paymentRequests := s.paymentRequests.step paymentRequestKind (.modify depth prid edit)
  { s with
    paymentRequests := paymentRequests
    proposals :=
      if (paymentRequests.get paymentRequestKind depth prid).isSome then s.proposals
      else if s.proposals.cached depth prid then
        s.proposals.step proposalKind (.modify depth prid CProposal.setNull)
      else s.proposals.step proposalKind (.create depth prid true fun _ => nullProposal) }

def editConsultation (s : DaoStack) (depth : Nat) (cid : UInt256)
    (edit : CConsultation → CConsultation) : CacheStack UInt256 CConsultation CConsultation :=
  s.consultations.step consultationKind (.modify depth cid
    (resetNull CConsultation.isNull (fun _ => nullConsultation) edit))

def addConsultationAnswer (s : DaoStack) (depth : Nat) (answer : CConsultationAnswer) : DaoStack :=
  { s with
    consultations :=
      if (s.getConsultationAnswer depth answer.hash).isSome then s.consultations
      else s.editConsultation depth answer.parent fun c =>
        { c with vAnswers := c.vAnswers ++ [answer.hash] }
    answers := s.answers.addNew answerKind depth answer.hash answer }

def removeConsultationAnswer (s : DaoStack) (depth : Nat) (cid : UInt256) : DaoStack :=
  { s with
    consultations :=
      match s.getConsultationAnswer depth cid with
      | none => s.consultations
      | some answer => s.editConsultation depth answer.parent fun c =>
        { c with vAnswers := eraseAnswer cid c.vAnswers }
    answers := s.answers.discard answerKind depth cid }

/-- `RemoveConsultation`; its last assertion makes an entry among the payment requests. -/
def removeConsultation (s : DaoStack) (depth : Nat) (cid : UInt256) : DaoStack :=
  let loaded := { s with
    consultations := s.consultations.step consultationKind (.read depth cid) }
  match s.getConsultation depth cid with
  | none => loaded
  | some c =>
    let s := c.vAnswers.foldl (fun s it => s.removeConsultationAnswer depth it) loaded
    { s with
      consultations := s.consultations.step consultationKind
        (.create depth cid true fun _ => nullConsultation)
      paymentRequests := if s.paymentRequests.cached depth cid then s.paymentRequests
        else s.paymentRequests.step paymentRequestKind
          (.create depth cid true fun _ => nullPaymentRequest) }

/-- `Flush` of the cache at some depth. -/
def flush (s : DaoStack) (depth : Nat) : DaoStack where
  proposals := s.proposals.step proposalKind (.flush depth)
  paymentRequests := s.paymentRequests.step paymentRequestKind (.flush depth)
  votes := s.votes.step voteKind (.flush depth)
  consultations := s.consultations.step consultationKind (.flush depth)
  answers := s.answers.step answerKind (.flush depth)
  consensus := s.consensus.step parameterKind (.flush depth)

def step (s : DaoStack) : DaoOp → DaoStack
  | .readProposal depth pid =>
    { s with proposals := s.proposals.step proposalKind (.read depth pid) }
  | .readPaymentRequest depth prid =>
    { s with paymentRequests := s.paymentRequests.step paymentRequestKind (.read depth prid) }
  | .readCachedVoter depth voter => { s with votes := s.votes.step voteKind (.read depth voter) }
  | .readConsultation depth cid =>
    { s with consultations := s.consultations.step consultationKind (.read depth cid) }
  | .readConsultationAnswer depth cid =>
    { s with answers := s.answers.step answerKind (.read depth cid) }
  | .readConsensusParameter depth pid =>
    { s with consensus := s.consensus.step parameterKind (.read depth pid) }
  | .addProposal depth p =>
    { s with proposals := s.proposals.addNew proposalKind depth p.hash p }
  | .addPaymentRequest depth r =>
    { s with paymentRequests := s.paymentRequests.addNew paymentRequestKind depth r.hash r }
  | .addCachedVoter depth voter v => { s with votes := s.votes.addNew voteKind depth voter v }
  | .addConsultation depth c =>
    { s with consultations := s.consultations.addNew consultationKind depth c.hash c }
  | .addConsultationAnswer depth a => s.addConsultationAnswer depth a
  | .modifyProposal depth pid edit =>
    { s with
      proposals := s.proposals.step proposalKind
        (.modify depth pid (resetNull CProposal.isNull CProposal.setNull edit)) }
  | .modifyPaymentRequest depth prid edit => s.modifyPaymentRequest depth prid edit
  | .modifyVote depth voter edit =>
    { s with
      votes := s.votes.step voteKind
        (.modify depth voter (resetNull CVoteList.isNull (fun _ => ⟨∅⟩) edit)) }
  | .modifyConsultation depth cid edit =>
    { s with consultations := s.editConsultation depth cid edit }
  | .modifyConsultationAnswer depth cid edit =>
    { s with
      answers := s.answers.step answerKind (.modify depth cid
        (resetNull CConsultationAnswer.isNull (fun _ => nullConsultationAnswer) edit)) }
  | .modifyConsensusParameter depth pid edit =>
    { s with
      consensus := s.consensus.step parameterKind
        (.modify depth pid (resetNull CConsensusParameter.isNull (fun _ => ⟨∅⟩) edit)) }
  | .removeProposal depth pid =>
    { s with proposals := s.proposals.discard proposalKind depth pid }
  | .removePaymentRequest depth prid =>
    { s with paymentRequests := s.paymentRequests.discard paymentRequestKind depth prid }
  | .removeCachedVoter depth voter => { s with votes := s.votes.discard voteKind depth voter }
  | .removeConsultation depth cid => s.removeConsultation depth cid
  | .removeConsultationAnswer depth cid => s.removeConsultationAnswer depth cid
  | .flush depth => s.flush depth

/-- Empty caches over a database with the objects of a view. -/
def start (n : Nat) (view : CStateView) : DaoStack where
  proposals := ⟨List.replicate n ∅, view.proposals⟩
  paymentRequests := ⟨List.replicate n ∅, view.paymentRequests⟩
  votes := ⟨List.replicate n ∅, view.votes⟩
  consultations := ⟨List.replicate n ∅, view.consultations⟩
  answers := ⟨List.replicate n ∅, view.answers⟩
  consensus := ⟨List.replicate n ∅, view.consensus⟩

end DaoStack

/-! ## The flattened view -/

/-- The operation on the flattened view. -/
def DaoOp.onView (view : CStateView) : DaoOp → CStateView
  | .addProposal _ p => view.addProposal p
  | .addPaymentRequest _ r => view.addPaymentRequest r
  | .addCachedVoter _ voter v =>
    if view.votes.contains voter then view else view.setCachedVoter voter v
  | .addConsultation _ c => view.addConsultation c
  | .addConsultationAnswer _ a => view.addConsultationAnswer a
  | .modifyProposal _ pid edit =>
    view.setProposal pid (edit ((view.getProposal pid).getD nullProposal))
  | .modifyPaymentRequest _ prid edit =>
    view.setPaymentRequest prid (edit ((view.getPaymentRequest prid).getD nullPaymentRequest))
  | .modifyVote _ voter edit => view.setCachedVoter voter (edit (view.votes[voter]?.getD ⟨∅⟩))
  | .modifyConsultation _ cid edit =>
    view.setConsultation cid (edit ((view.getConsultation cid).getD nullConsultation))
  | .modifyConsultationAnswer _ cid edit =>
    view.setConsultationAnswer cid
      (edit ((view.getConsultationAnswer cid).getD nullConsultationAnswer))
  | .modifyConsensusParameter _ pid edit => view.modifyConsensusParameter pid edit
  | .removeProposal _ pid => view.removeProposal pid
  | .removePaymentRequest _ prid => view.removePaymentRequest prid
  | .removeCachedVoter _ voter => { view with votes := view.votes.erase voter }
  | .removeConsultation _ cid => view.removeConsultation cid
  | .removeConsultationAnswer _ cid => view.removeConsultationAnswer cid
  | _ => view

/-- The stack is coherent and shows the objects of the view. -/
structure DaoSimulates (s : DaoStack) (view : CStateView) : Prop where
  proposals : proposalKind.Simulates s.proposals view.proposals
  paymentRequests : paymentRequestKind.Simulates s.paymentRequests view.paymentRequests
  votes : voteKind.Simulates s.votes view.votes
  consultations : consultationKind.Simulates s.consultations view.consultations
  answers : answerKind.Simulates s.answers view.answers
  consensus : parameterKind.Simulates s.consensus view.consensus

/-- No list of votes goes to the database under the empty key, which its cursor passes over. -/
def VotersListable : Layers (List UInt8) CVoteList → Bool
  | [l] => (l[([] : List UInt8)]?).all (·.value.isNull)
  | _ => true

/-- Whether an operation is one that the stack makes as the flattened view would.  Objects are
written in a cache above which no cache holds an entry for them; an edit of an object that is not
there does not look at what is left of it; a payment request is made null, and a consultation
removed, under a key that no proposal and no payment request has; answers are added to
consultations that exist; and the database keeps what is flushed to it, and can list it. -/
def DaoOp.Regular (s : DaoStack) : DaoOp → Prop
  | .addProposal depth p => CacheKind.Uncovered s.proposals depth p.hash
  | .addPaymentRequest depth r => CacheKind.Uncovered s.paymentRequests depth r.hash
  | .addCachedVoter depth voter _ => CacheKind.Uncovered s.votes depth voter
  | .addConsultation depth c => CacheKind.Uncovered s.consultations depth c.hash
  | .addConsultationAnswer depth a => CacheKind.Uncovered s.answers depth a.hash ∧
      CacheKind.Uncovered s.consultations depth a.parent ∧
      (s.getConsultation depth a.parent).isSome = true
  | .modifyProposal depth pid edit => CacheKind.Uncovered s.proposals depth pid ∧
      ((s.getProposal depth pid).isSome = true ∨
        proposalKind.Blind (resetNull CProposal.isNull CProposal.setNull edit))
  | .modifyPaymentRequest depth prid edit => CacheKind.Uncovered s.paymentRequests depth prid ∧
      ((s.getPaymentRequest depth prid).isSome = true ∨ paymentRequestKind.Blind edit) ∧
      ((edit ((s.getPaymentRequest depth prid).getD nullPaymentRequest)).isNull = true →
        CacheKind.Uncovered s.proposals depth prid ∧ s.getProposal depth prid = none)
  | .modifyVote depth voter edit => CacheKind.Uncovered s.votes depth voter ∧
      ((s.getCachedVoter depth voter).isSome = true ∨
        voteKind.Blind (resetNull CVoteList.isNull (fun _ => ⟨∅⟩) edit))
  | .modifyConsultation depth cid edit => CacheKind.Uncovered s.consultations depth cid ∧
      ((s.getConsultation depth cid).isSome = true ∨ consultationKind.Blind
        (resetNull CConsultation.isNull (fun _ => nullConsultation) edit))
  | .modifyConsultationAnswer depth cid edit => CacheKind.Uncovered s.answers depth cid ∧
      ((s.getConsultationAnswer depth cid).isSome = true ∨ answerKind.Blind
        (resetNull CConsultationAnswer.isNull (fun _ => nullConsultationAnswer) edit))
  | .modifyConsensusParameter depth pid edit => CacheKind.Uncovered s.consensus depth pid ∧
      ((s.getConsensusParameter depth pid).isSome = true ∨ parameterKind.Blind
        (resetNull CConsensusParameter.isNull (fun _ => ⟨∅⟩) edit))
  | .removeProposal depth pid => CacheKind.Uncovered s.proposals depth pid
  | .removePaymentRequest depth prid => CacheKind.Uncovered s.paymentRequests depth prid
  | .removeCachedVoter depth voter => CacheKind.Uncovered s.votes depth voter
  | .removeConsultation depth cid => CacheKind.Uncovered s.consultations depth cid ∧
      CacheKind.Uncovered s.paymentRequests depth cid ∧ s.getPaymentRequest depth cid = none ∧
      ∀ c ∈ s.getConsultation depth cid, ∀ it ∈ c.vAnswers, CacheKind.Uncovered s.answers depth it ∧
        ∀ a ∈ s.getConsultationAnswer depth it, CacheKind.Uncovered s.consultations depth a.parent
  | .removeConsultationAnswer depth cid => CacheKind.Uncovered s.answers depth cid ∧
      ∀ a ∈ s.getConsultationAnswer depth cid, CacheKind.Uncovered s.consultations depth a.parent
  | .flush depth => proposalKind.FlushStorable (s.proposals.layers.drop depth) ∧
      paymentRequestKind.FlushStorable (s.paymentRequests.layers.drop depth) ∧
      voteKind.FlushStorable (s.votes.layers.drop depth) ∧
      VotersListable (s.votes.layers.drop depth) = true ∧
      consultationKind.FlushStorable (s.consultations.layers.drop depth) ∧
      answerKind.FlushStorable (s.answers.layers.drop depth) ∧
      parameterKind.FlushStorable (s.consensus.layers.drop depth)
  | _ => True

/-! ## Operations on one kind -/

section OneKind

variable {κ α : Type} [Ord κ] [Std.TransOrd κ] [Std.LawfulEqOrd κ] [DecidableEq κ]
variable {T : CacheKind α α} {s : CacheStack κ α α} {m : Map κ α} {depth : Nat} {k : κ}
  {isNull : α → Bool} {a : α}

theorem setUnless_null_none (hNull : isNull a = true)
    (h : m[k]? = none) : Map.setUnless isNull m k a = m := by
  apply Std.ExtTreeMap.ext_getElem?
  intro j
  rw [Map.getElem?_setUnless, hNull]
  split
  case isTrue hEq => rw [← hEq, h]; rfl
  case isFalse => rfl

omit [Std.LawfulEqOrd κ] [DecidableEq κ] in
/-- Resetting a null object does not show. -/
theorem setUnless_resetNull {setNull : α → α}
    (hNull : ∀ a, isNull (setNull a) = true) (edit : α → α) (a : α) :
    Map.setUnless isNull m k (resetNull isNull setNull edit a) =
      Map.setUnless isNull m k (edit a) := by
  unfold resetNull
  split
  case isTrue hEdit =>
    unfold Map.setUnless
    rw [hNull, hEdit]
    rfl
  case isFalse => rfl

theorem CacheKind.Simulates.modifyReset (h : T.Simulates s m)
    (hTop : CacheKind.Uncovered s depth k) (setNull edit : α → α)
    (hNull : ∀ a, T.isPruned (setNull a) = true)
    (hBlind : (s.get T depth k).isSome = true ∨ T.Blind (resetNull T.isPruned setNull edit)) :
    T.Simulates (s.step T (.modify depth k (resetNull T.isPruned setNull edit)))
      (Map.setUnless T.isPruned m k (edit (m[k]?.getD T.empty))) := by
  have hModified := h.modify hTop hBlind
  rwa [setUnless_resetNull hNull] at hModified

/-- Writing a null object where there is none. -/
theorem CacheKind.Simulates.createNull (h : T.Simulates s m) (hTop : CacheKind.Uncovered s depth k)
    (hNone : m[k]? = none) (ha : T.isPruned a = true) :
    T.Simulates (s.step T (.create depth k true fun _ => a)) m := by
  have hCreated := h.create hTop a
  rwa [setUnless_null_none ha hNone] at hCreated

end OneKind

/-! ## Operations on several kinds -/

section Several

variable {s : DaoStack} {view : CStateView} {depth : Nat}

/-- Erasing an answer from a consultation that is not there. -/
theorem blind_eraseAnswer (cid : UInt256) :
    consultationKind.Blind (resetNull CConsultation.isNull (fun _ => nullConsultation)
      fun c => { c with vAnswers := eraseAnswer cid c.vAnswers }) := by
  have hNull : ∀ c : CConsultation, c.isNull = true →
      resetNull CConsultation.isNull (fun _ => nullConsultation)
        (fun c => { c with vAnswers := eraseAnswer cid c.vAnswers }) c =
          nullConsultation := by
    intro c hc
    have hAnswers : c.vAnswers = [] := by
      simp only [CConsultation.isNull, Bool.and_eq_true, List.isEmpty_iff] at hc
      exact hc.1.2
    have hSame : ({ c with vAnswers := eraseAnswer cid c.vAnswers } : CConsultation) = c := by
      rw [hAnswers]
      show ({ c with vAnswers := [] } : CConsultation) = c
      rw [← hAnswers]
    refine if_pos ?_
    change CConsultation.isNull { c with vAnswers := eraseAnswer cid c.vAnswers } = true
    rw [hSame]
    exact hc
  intro c hc
  rw [hNull c hc, hNull _ rfl]

variable {a : CConsultationAnswer}

theorem DaoSimulates.addConsultationAnswer (h : DaoSimulates s view)
    (hAnswer : CacheKind.Uncovered s.answers depth a.hash)
    (hParent : CacheKind.Uncovered s.consultations depth a.parent)
    (hExists : (s.getConsultation depth a.parent).isSome = true) :
    DaoSimulates (s.addConsultationAnswer depth a) (view.addConsultationAnswer a) := by
  have hGet : s.getConsultationAnswer depth a.hash = view.answers[a.hash]? := h.answers.get hAnswer
  have hAdd := h.answers.addNew hAnswer a
  have hEdit := h.consultations.modifyReset hParent (fun _ => nullConsultation)
    (fun c => { c with vAnswers := c.vAnswers ++ [a.hash] }) (fun _ => rfl) (.inl hExists)
  unfold DaoStack.addConsultationAnswer CStateView.addConsultationAnswer
  rw [hGet]
  rw [Std.ExtTreeMap.contains_eq_isSome_getElem?] at hAdd ⊢
  split
  case isTrue hThere =>
    rw [if_pos hThere] at hAdd
    exact ⟨h.proposals, h.paymentRequests, h.votes, h.consultations, hAdd, h.consensus⟩
  case isFalse hNew =>
    rw [if_neg hNew] at hAdd
    exact ⟨h.proposals, h.paymentRequests, h.votes, hEdit, hAdd, h.consensus⟩

variable {cid : UInt256}

/-- The answer leaves the list of its consultation too. -/
theorem DaoSimulates.removeConsultationAnswer (h : DaoSimulates s view)
    (hAnswer : CacheKind.Uncovered s.answers depth cid)
    (hParent : ∀ a ∈ s.getConsultationAnswer depth cid,
      CacheKind.Uncovered s.consultations depth a.parent) :
    DaoSimulates (s.removeConsultationAnswer depth cid) (view.removeConsultationAnswer cid) := by
  have hGet : s.getConsultationAnswer depth cid = view.answers[cid]? := h.answers.get hAnswer
  have hDiscard := h.answers.discard hAnswer
  unfold DaoStack.removeConsultationAnswer CStateView.removeConsultationAnswer
    getConsultationAnswer
  rw [hGet] at hParent ⊢
  cases hCached : view.answers[cid]? with
  | none =>
    have hSame : view.answers.erase cid = view.answers :=
      setUnless_null_none (show CConsultationAnswer.isNull nullConsultationAnswer = true from rfl)
        hCached
    rw [hSame] at hDiscard
    exact ⟨h.proposals, h.paymentRequests, h.votes, h.consultations, hDiscard, h.consensus⟩
  | some a =>
    have hEdit := h.consultations.modifyReset (hParent a hCached)
      (fun _ => nullConsultation)
      (fun c => { c with vAnswers := eraseAnswer cid c.vAnswers })
      (fun _ => rfl) (.inr (blind_eraseAnswer cid))
    exact ⟨h.proposals, h.paymentRequests, h.votes, hEdit, hDiscard, h.consensus⟩

/-- What removing an answer leaves as it is. -/
theorem DaoStack.removeConsultationAnswer_frame (s : DaoStack) (depth : Nat) (cid : UInt256) :
    (s.removeConsultationAnswer depth cid).paymentRequests = s.paymentRequests ∧
    (∀ j, CacheKind.Uncovered s.answers depth j →
      CacheKind.Uncovered (s.removeConsultationAnswer depth cid).answers depth j) ∧
    ∀ j, CacheKind.Uncovered s.consultations depth j →
      CacheKind.Uncovered (s.removeConsultationAnswer depth cid).consultations depth j := by
  refine ⟨rfl, fun j hj => hj.discard cid, fun j hj => ?_⟩
  unfold DaoStack.removeConsultationAnswer
  cases s.getConsultationAnswer depth cid with
  | none => exact hj
  | some a => exact hj.modify a.parent _

/-- Removing an answer brings no answer back. -/
theorem CStateView.removeConsultationAnswer_answers {view : CStateView} {j : UInt256}
    (h : (view.removeConsultationAnswer cid).answers[j]? = some a) :
    view.answers[j]? = some a := by
  unfold CStateView.removeConsultationAnswer at h
  split at h
  case h_1 => exact h
  case h_2 =>
    have hErase : (view.answers.erase cid)[j]? = some a := h
    rw [Std.ExtTreeMap.getElem?_erase] at hErase
    split at hErase
    case isTrue => cases hErase
    case isFalse => exact hErase

/-- The loop of `RemoveConsultation`. -/
theorem DaoSimulates.removeAnswers (h : DaoSimulates s view) (vAnswers : List UInt256)
    (hAnswers : ∀ it ∈ vAnswers, CacheKind.Uncovered s.answers depth it)
    (hParents : ∀ it ∈ vAnswers, ∀ a ∈ s.getConsultationAnswer depth it,
      CacheKind.Uncovered s.consultations depth a.parent) :
    DaoSimulates (vAnswers.foldl (fun s it => s.removeConsultationAnswer depth it) s)
        (vAnswers.foldl CStateView.removeConsultationAnswer view) ∧
      (vAnswers.foldl (fun s it => s.removeConsultationAnswer depth it) s).paymentRequests =
        s.paymentRequests ∧
      ∀ j, CacheKind.Uncovered s.consultations depth j → CacheKind.Uncovered
        (vAnswers.foldl (fun s it => s.removeConsultationAnswer depth it) s).consultations depth j := by
  induction vAnswers generalizing s view with
  | nil => exact ⟨h, rfl, fun _ hj => hj⟩
  | cons it rest ih =>
    rw [List.forall_mem_cons] at hAnswers hParents
    have hStep := h.removeConsultationAnswer hAnswers.1 hParents.1
    obtain ⟨hRequests, hKeepAnswers, hKeep⟩ := s.removeConsultationAnswer_frame depth it
    -- what is left was there before
    have hGone : ∀ j ∈ rest, ∀ a ∈ (s.removeConsultationAnswer depth it).getConsultationAnswer depth j,
        a ∈ s.getConsultationAnswer depth j := by
      intro j hj a ha
      have hBefore : s.getConsultationAnswer depth j = view.answers[j]? :=
        h.answers.get (hAnswers.2 j hj)
      have hAfter := hStep.answers.get (hKeepAnswers j (hAnswers.2 j hj))
      rw [hBefore]
      exact removeConsultationAnswer_answers (hAfter.symm.trans ha)
    obtain ⟨hEnd, hSame, hLast⟩ := ih hStep
      (fun j hj => hKeepAnswers j (hAnswers.2 j hj))
      (fun j hj a ha => hKeep _ (hParents.2 j hj a (hGone j hj a ha)))
    exact ⟨hEnd, hSame.trans hRequests, fun j hj => hLast j (hKeep j hj)⟩

/-- The assertion inserts a payment request entry, which nobody sees if there is no request. -/
theorem DaoSimulates.removeConsultation (h : DaoSimulates s view)
    (hConsultation : CacheKind.Uncovered s.consultations depth cid)
    (hRequest : CacheKind.Uncovered s.paymentRequests depth cid)
    (hNone : s.getPaymentRequest depth cid = none)
    (hAnswers : ∀ c ∈ s.getConsultation depth cid, ∀ it ∈ c.vAnswers,
      CacheKind.Uncovered s.answers depth it ∧
      ∀ a ∈ s.getConsultationAnswer depth it, CacheKind.Uncovered s.consultations depth a.parent) :
    DaoSimulates (s.removeConsultation depth cid) (view.removeConsultation cid) := by
  have hGet : s.getConsultation depth cid = view.consultations[cid]? :=
    h.consultations.get hConsultation
  have hLoaded : DaoSimulates
      { s with consultations := s.consultations.step consultationKind (.read depth cid) } view :=
    ⟨h.proposals, h.paymentRequests, h.votes, h.consultations.read depth cid, h.answers,
      h.consensus⟩
  unfold DaoStack.removeConsultation CStateView.removeConsultation getConsultation
  rw [hGet] at hAnswers ⊢
  cases hCached : view.consultations[cid]? with
  | none => exact hLoaded
  | some c =>
    obtain ⟨hLoop, hSame, hKeep⟩ := hLoaded.removeAnswers c.vAnswers
      (fun it hIt => (hAnswers c hCached it hIt).1)
      (fun it hIt a ha => ((hAnswers c hCached it hIt).2 a ha).read cid)
    dsimp only at hSame ⊢
    have hTop := hKeep cid (hConsultation.read cid)
    refine ⟨hLoop.proposals, ?_, hLoop.votes, ?_, hLoop.answers, hLoop.consensus⟩
    · have hShows := hLoop.paymentRequests
      rw [hSame] at hShows ⊢
      split
      · exact hShows
      · exact hShows.createNull hRequest ((hShows.get hRequest).symm.trans hNone) rfl
    · exact hLoop.consultations.create hTop nullConsultation

/-- A request that becomes null resets a proposal, which nobody sees if there is none. -/
theorem DaoSimulates.modifyPaymentRequest (h : DaoSimulates s view) {prid : UInt256}
    {edit : CPaymentRequest → CPaymentRequest}
    (hRequest : CacheKind.Uncovered s.paymentRequests depth prid)
    (hBlind : (s.getPaymentRequest depth prid).isSome = true ∨ paymentRequestKind.Blind edit)
    (hKeys : (edit ((s.getPaymentRequest depth prid).getD nullPaymentRequest)).isNull = true →
      CacheKind.Uncovered s.proposals depth prid ∧ s.getProposal depth prid = none) :
    DaoSimulates (s.modifyPaymentRequest depth prid edit) (view.setPaymentRequest prid
        (edit ((view.getPaymentRequest prid).getD nullPaymentRequest))) := by
  have hGet : s.getPaymentRequest depth prid = view.getPaymentRequest prid :=
    h.paymentRequests.get hRequest
  have hModified := h.paymentRequests.modify hRequest hBlind
  have hAfter : ((s.paymentRequests.step paymentRequestKind (.modify depth prid edit)).get
      paymentRequestKind depth prid).isSome =
        !(edit ((view.getPaymentRequest prid).getD nullPaymentRequest)).isNull := by
    rw [hModified.get (hRequest.modify prid edit), Map.getElem?_setUnless, if_pos rfl]
    change (if (edit ((view.getPaymentRequest prid).getD nullPaymentRequest)).isNull = true then
      none else some _).isSome = _
    cases (edit ((view.getPaymentRequest prid).getD nullPaymentRequest)).isNull <;> rfl
  refine ⟨?_, hModified, h.votes, h.consultations, h.answers, h.consensus⟩
  unfold DaoStack.modifyPaymentRequest
  dsimp only
  rw [hAfter]
  cases hNull : (edit ((view.getPaymentRequest prid).getD nullPaymentRequest)).isNull with
  | false => exact h.proposals
  | true =>
    -- only a request that is null now reaches the map of the proposals
    rw [← hGet] at hNull
    obtain ⟨hTop, hNoProposal⟩ := hKeys hNull
    have hNone : view.proposals[prid]? = none := (h.proposals.get hTop).symm.trans hNoProposal
    rw [if_neg (by decide)]
    split
    case isTrue =>
      have hBlind : proposalKind.Blind CProposal.setNull := fun _ _ => rfl
      have hReset := h.proposals.modify hTop (.inr hBlind)
      rwa [setUnless_null_none (show proposalKind.isPruned (CProposal.setNull _) = true from rfl)
        hNone] at hReset
    case isFalse =>
      have hReset : proposalKind.isPruned nullProposal = true := rfl
      exact h.proposals.createNull hTop hNone hReset

/-- **Step.** An operation on the stack is the operation on the flattened view. -/
theorem DaoSimulates.step (h : DaoSimulates s view) {op : DaoOp} (hRegular : op.Regular s) :
    DaoSimulates (s.step op) (op.onView view) := by
  cases op with
  | readProposal depth pid => exact { h with proposals := h.proposals.read depth pid }
  | readPaymentRequest depth prid =>
    exact { h with paymentRequests := h.paymentRequests.read depth prid }
  | readCachedVoter depth voter => exact { h with votes := h.votes.read depth voter }
  | readConsultation depth cid =>
    exact { h with consultations := h.consultations.read depth cid }
  | readConsultationAnswer depth cid => exact { h with answers := h.answers.read depth cid }
  | readConsensusParameter depth pid => exact { h with consensus := h.consensus.read depth pid }
  | addProposal depth p =>
    have hView : view.addProposal p = { view with
        proposals := if view.proposals.contains p.hash then view.proposals
          else Map.setUnless CProposal.isNull view.proposals p.hash p } := by
      unfold addProposal
      split <;> rfl
    change DaoSimulates _ (view.addProposal p)
    rw [hView]
    exact { h with proposals := h.proposals.addNew hRegular p }
  | addPaymentRequest depth r =>
    have hView : view.addPaymentRequest r = { view with
        paymentRequests := if view.paymentRequests.contains r.hash then view.paymentRequests
          else Map.setUnless CPaymentRequest.isNull view.paymentRequests r.hash r } := by
      unfold addPaymentRequest
      split <;> rfl
    change DaoSimulates _ (view.addPaymentRequest r)
    rw [hView]
    exact { h with paymentRequests := h.paymentRequests.addNew hRegular r }
  | addCachedVoter depth voter v =>
    have hView : (if view.votes.contains voter then view else view.setCachedVoter voter v) =
        { view with
          votes := if view.votes.contains voter then view.votes
            else Map.setUnless CVoteList.isNull view.votes voter v } := by
      split <;> rfl
    change DaoSimulates _ (if view.votes.contains voter then view else view.setCachedVoter voter v)
    rw [hView]
    exact { h with votes := h.votes.addNew hRegular v }
  | addConsultation depth c =>
    have hView : view.addConsultation c = { view with
        consultations := if view.consultations.contains c.hash then view.consultations
          else Map.setUnless CConsultation.isNull view.consultations c.hash c } := by
      unfold addConsultation
      split <;> rfl
    change DaoSimulates _ (view.addConsultation c)
    rw [hView]
    exact { h with consultations := h.consultations.addNew hRegular c }
  | addConsultationAnswer depth a =>
    exact h.addConsultationAnswer hRegular.1 hRegular.2.1 hRegular.2.2
  | modifyProposal depth pid edit =>
    exact { h with
      proposals := h.proposals.modifyReset hRegular.1 _ edit (fun _ => rfl) hRegular.2 }
  | modifyPaymentRequest depth prid edit =>
    exact h.modifyPaymentRequest hRegular.1 hRegular.2.1 hRegular.2.2
  | modifyVote depth voter edit =>
    exact { h with votes := h.votes.modifyReset hRegular.1 _ edit (fun _ => rfl) hRegular.2 }
  | modifyConsultation depth cid edit =>
    exact { h with
      consultations := h.consultations.modifyReset hRegular.1 _ edit (fun _ => rfl) hRegular.2 }
  | modifyConsultationAnswer depth cid edit =>
    exact { h with
      answers := h.answers.modifyReset hRegular.1 _ edit (fun _ => rfl) hRegular.2 }
  | modifyConsensusParameter depth pid edit =>
    exact { h with
      consensus := h.consensus.modifyReset hRegular.1 _ edit (fun _ => rfl) hRegular.2 }
  | removeProposal depth pid => exact { h with proposals := h.proposals.discard hRegular }
  | removePaymentRequest depth prid =>
    exact { h with paymentRequests := h.paymentRequests.discard hRegular }
  | removeCachedVoter depth voter => exact { h with votes := h.votes.discard hRegular }
  | removeConsultation depth cid =>
    exact h.removeConsultation hRegular.1 hRegular.2.1 hRegular.2.2.1 hRegular.2.2.2
  | removeConsultationAnswer depth cid => exact h.removeConsultationAnswer hRegular.1 hRegular.2
  | flush depth =>
    obtain ⟨hProposals, hRequests, hVotes, -, hConsultations, hAnswers, hConsensus⟩ := hRegular
    exact ⟨h.proposals.flush hProposals, h.paymentRequests.flush hRequests, h.votes.flush hVotes,
      h.consultations.flush hConsultations, h.answers.flush hAnswers, h.consensus.flush hConsensus⟩

end Several

/-! ## Sequences of operations -/

/-- What the top cache returns: `Get...` for every key, and `GetAll...` of the kinds that have
it. -/
structure DaoStack.Shows (s : DaoStack) (view : CStateView) : Prop where
  proposal : ∀ pid, s.getProposal 0 pid = view.proposals[pid]?
  paymentRequest : ∀ prid, s.getPaymentRequest 0 prid = view.paymentRequests[prid]?
  voter : ∀ voter, s.getCachedVoter 0 voter = view.votes[voter]?
  consultation : ∀ cid, s.getConsultation 0 cid = view.consultations[cid]?
  answer : ∀ cid, s.getConsultationAnswer 0 cid = view.answers[cid]?
  parameter : ∀ pid, s.getConsensusParameter 0 pid = view.consensus[pid]?
  allProposals : proposalKind.listAll s.proposals.db s.proposals.layers = some view.proposals
  allPaymentRequests : paymentRequestKind.listAll s.paymentRequests.db s.paymentRequests.layers =
    some view.paymentRequests
  allVotes : s.getAllVotes = some view.votes
  allConsultations : consultationKind.listAll s.consultations.db s.consultations.layers =
    some view.consultations
  allConsultationAnswers : answerKind.listAll s.answers.db s.answers.layers = some view.answers

variable {view : CStateView} {s : DaoStack}

/-- Only a flush writes lists of votes to the database. -/
theorem DaoStack.step_votes_db (s : DaoStack) (op : DaoOp) (hOp : ∀ depth, op ≠ .flush depth) :
    (s.step op).votes.db = s.votes.db := by
  cases op with
  | flush depth => exact absurd rfl (hOp depth)
  | addCachedVoter depth voter v =>
    rw [DaoStack.step, CacheStack.addNew]
    split <;> rfl
  | removeCachedVoter depth voter =>
    rw [DaoStack.step, CacheStack.discard]
    split <;> rfl
  | removeConsultation depth cid =>
    rw [DaoStack.step, DaoStack.removeConsultation]
    split
    · rfl
    · exact foldl_invariant (fun _ (s' : DaoStack) => s'.votes.db = s.votes.db) _ rfl
        fun _ _ _ _ _ h => h
  | _ => rfl

/-- The database never gets a list of votes under the empty key. -/
theorem DaoStack.listed_step {op : DaoOp} (hRegular : op.Regular s)
    (hListed : s.votes.db[([] : List UInt8)]? = none) :
    (s.step op).votes.db[([] : List UInt8)]? = none := by
  by_cases hOp : ∃ depth, op = .flush depth
  · obtain ⟨depth, rfl⟩ := hOp
    have hEmpty : VotersListable (s.votes.layers.drop depth) = true := hRegular.2.2.2.1
    show (voteKind.flush s.votes.db (s.votes.layers.drop depth)).2[([] : List UInt8)]? = none
    match s.votes.layers.drop depth, hEmpty with
    | [], _ => exact hListed
    | _ :: _ :: _, _ => exact hListed
    | [l], hEmpty =>
      rw [CacheKind.flush, Map.getElem?_pour]
      cases hEntry : l[([] : List UInt8)]? with
      | none => exact hListed
      | some e =>
        have hNull : e.value.isNull = true := by simpa [VotersListable, hEntry] using hEmpty
        show voteKind.storeEntry _ e = none
        rw [CacheKind.storeEntry, show voteKind.isPruned e.value = true from hNull, hListed]
        simp
  · rw [s.step_votes_db op fun depth hEq => hOp ⟨depth, hEq⟩]
    exact hListed

theorem DaoSimulates.shows (h : DaoSimulates s view)
    (hListed : s.votes.db[([] : List UInt8)]? = none) : s.Shows view where
  proposal := h.proposals.get_top
  paymentRequest := h.paymentRequests.get_top
  voter := h.votes.get_top
  consultation := h.consultations.get_top
  answer := h.answers.get_top
  parameter := h.consensus.get_top
  allProposals := h.proposals.listAll
  allPaymentRequests := h.paymentRequests.listAll
  allVotes := by
    have hSame : s.votes.db.erase [] = s.votes.db :=
      setUnless_null_none (show CVoteList.isNull ⟨∅⟩ = true from rfl) hListed
    rw [DaoStack.getAllVotes, hSame]
    exact h.votes.listAll
  allConsultations := h.consultations.listAll
  allConsultationAnswers := h.answers.listAll

/-- No object of the view is null, and no list of votes stands under the empty key. -/
structure CStateView.ProperObjects (view : CStateView) : Prop where
  proposals : ∀ (pid : UInt256) (p : CProposal), view.proposals[pid]? = some p → p.isNull = false
  paymentRequests : ∀ (prid : UInt256) (r : CPaymentRequest),
    view.paymentRequests[prid]? = some r → r.isNull = false
  votes : ∀ (voter : List UInt8) (v : CVoteList), view.votes[voter]? = some v → v.isNull = false
  voters : view.votes[([] : List UInt8)]? = none
  consultations : ∀ (cid : UInt256) (c : CConsultation),
    view.consultations[cid]? = some c → c.isNull = false
  answers : ∀ (cid : UInt256) (a : CConsultationAnswer),
    view.answers[cid]? = some a → a.isNull = false
  consensus : ∀ (pid : Nat) (c : CConsensusParameter),
    view.consensus[pid]? = some c → c.isNull = false

/-- Empty caches over a database of one kind. -/
theorem daoKind_start {κ α : Type} [Ord κ] [Std.TransOrd κ] [Std.LawfulEqOrd κ] [DecidableEq κ]
    {isNull : α → Bool} {null : α} {stored : α → α} {hNull : isNull null = true} {m : Map κ α}
    (hProper : ∀ (k : κ) (a : α), m[k]? = some a → isNull a = false) (n : Nat) :
    (daoKind isNull null stored hNull).Simulates ⟨List.replicate n ∅, m⟩ m := by
  have hStart := CacheKind.Simulates.start (T := daoKind isNull null stored hNull)
    (fun k a hk => ⟨a, rfl, hProper k a hk⟩) n
  have hSame : (m.filterMap fun _ a => some a) = m := by
    apply Std.ExtTreeMap.ext_getElem?
    intro k
    rw [Std.ExtTreeMap.getElem?_filterMap]
    cases m[k]? <;> rfl
  rwa [show (m.filterMap fun _ a => (daoKind isNull null stored hNull).read a) = m from hSame]
    at hStart

theorem DaoSimulates.start (h : view.ProperObjects) (n : Nat) :
    DaoSimulates (.start n view) view where
  proposals := daoKind_start h.proposals n
  paymentRequests := daoKind_start h.paymentRequests n
  votes := daoKind_start h.votes n
  consultations := daoKind_start h.consultations n
  answers := daoKind_start h.answers n
  consensus := daoKind_start h.consensus n

def DaoOp.RegularRun (s : DaoStack) : List DaoOp → Prop
  | [] => True
  | op :: ops => op.Regular s ∧ RegularRun (s.step op) ops

/-- **Run.** -/
theorem DaoSimulates.run (h : DaoSimulates s view)
    (hListed : s.votes.db[([] : List UInt8)]? = none)
    {ops : List DaoOp} (hRun : DaoOp.RegularRun s ops) :
    DaoSimulates (ops.foldl DaoStack.step s) (ops.foldl DaoOp.onView view) ∧
      (ops.foldl DaoStack.step s).votes.db[([] : List UInt8)]? = none := by
  induction ops generalizing s view with
  | nil => exact ⟨h, hListed⟩
  | cons op ops ih => exact ih (h.step hRun.1) (DaoStack.listed_step hRun.1 hListed) hRun.2

/-- **One map for each kind.** However many caches lie over the database, after any sequence of
regular operations the top cache shows the flattened view on which the same operations were made,
and a flush that the database keeps does not change it. -/
theorem dao_run {n : Nat} {view : CStateView} (hProper : view.ProperObjects) {ops : List DaoOp}
    (hRun : DaoOp.RegularRun (.start n view) ops) :
    (ops.foldl DaoStack.step (.start n view)).Shows (ops.foldl DaoOp.onView view) ∧
    ∀ depth, (DaoOp.flush depth).Regular (ops.foldl DaoStack.step (.start n view)) →
      ((ops.foldl DaoStack.step (.start n view)).flush depth).Shows
        (ops.foldl DaoOp.onView view) := by
  obtain ⟨hEnd, hListed⟩ := (DaoSimulates.start hProper n).run hProper.voters hRun
  exact ⟨hEnd.shows hListed,
    fun depth hFlush => (hEnd.step hFlush).shows (DaoStack.listed_step hFlush hListed)⟩

/-! ## A proposal, a consultation and its answer -/

/-- A proposal of some version in its third voting cycle. -/
def thirdCycle (nVersion : Int) : CProposal :=
  { nullProposal with nAmount := 5, hash := 1, nVersion := nVersion, nVotingCycle := 3 }

/-- Add the three objects, flush the upper cache, vote, remove the consultation, and flush both. -/
def addAndRemove : List DaoOp :=
  [.addProposal 0 (thirdCycle 63),
    .addConsultation 0 { nullConsultation with hash := 2, nVersion := 1 },
    .addConsultationAnswer 0 { nullConsultationAnswer with hash := 3, parent := 2 },
    .flush 0, .modifyProposal 0 1 fun p => { p with nVotesYes := 7 }, .removeConsultation 0 2,
    .flush 0, .flush 1]

/-- Only the proposal is left, with its votes. -/
theorem dao_run_addAndRemove :
    DaoOp.RegularRun (.start 2 .empty) addAndRemove ∧
    (addAndRemove.foldl DaoStack.step (.start 2 .empty)).Shows
      (addAndRemove.foldl DaoOp.onView .empty) ∧
    (addAndRemove.foldl DaoOp.onView .empty).proposals.toList =
      [(1, { thirdCycle 63 with nVotesYes := 7 })] ∧
    (addAndRemove.foldl DaoOp.onView .empty).consultations.toList = [] := by
  have hRun : DaoOp.RegularRun (.start 2 .empty) addAndRemove := by
    refine ⟨?_, ?_, ?_, ?_, ⟨by decide +kernel, .inl (by decide +kernel)⟩, ?_, ?_, ?_, trivial⟩
    all_goals
      unfold DaoOp.Regular
      decide +kernel
  have hProper : empty.ProperObjects := by
    refine ⟨?_, ?_, ?_, rfl, ?_, ?_, ?_⟩
    all_goals
      intro k a hk
      simp [empty] at hk
  exact ⟨hRun, (dao_run hProper hRun).1, by decide +kernel, by decide +kernel⟩

/-- **A field that the version does not announce.** The first version of a proposal does not store
its voting cycle: after a flush to the database the proposal is back in cycle zero. -/
theorem dao_flush_drops_votingCycle :
    let s := (DaoStack.start 1 .empty).step (.addProposal 0 (thirdCycle 1))
    s.getProposal 0 1 = some (thirdCycle 1) ∧
    (s.flush 0).getProposal 0 1 = some { thirdCycle 1 with nVotingCycle := 0 } ∧
    (thirdCycle 1).isNull = false := by
  all_goals decide +kernel

end Electrum
