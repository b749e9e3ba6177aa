import Electrum.Lib.Codec
import Electrum.Dao.Metadata
import Electrum.Dao.ViewCache

/-!
# Stored proposals, payment requests and consultations

The bytes in which proposals and payment requests are kept in the database.  Which fields are
written depends on bits of the version; the predicates read some of them under other bits.
Consultations are also compared, field by field, to tell whether an edit changed one.

Main results:
* `CProposal.reads`, `CPaymentRequest.reads` — what is read back
* `decisions_kept_iff` — when an object that was read back is decided upon as before
* `CConsultation.equals_faithful_iff` — when the comparison tells what the bytes tell
-/

namespace Electrum

open Codec

/-! ## The types of the fields -/

def MAX_SIZE : Nat := 0x02000000

namespace Codec

def size : Codec Nat := count MAX_SIZE (by decide)
def amount : Codec Int := signed 8
def int : Codec Int := signed 4
def uint : Codec Nat := unsigned 4
def uint64 : Codec Nat := unsigned 8
def uint256 : Codec UInt256 := unsigned 32
def string : Codec String := text size

/-- The number of elements as it is written, whatever the limit for reading. -/
def anySize : Codec Nat := count (256 ^ 8 - 1) (by decide)

end Codec

/-- The value of the flag. -/
def Flags.code (state : Flags) : Nat := state.ctorIdx

/-- Every flag, in the order of the values. -/
def Flags.all : List Flags :=
  [.nil, .accepted, .rejected, .expired, .pendingFunds, .pendingVotingPreq, .paid, .passed,
    .reflection, .supported]

def Flags.ofCode (n : Nat) : Flags := Flags.all.getD n .nil

theorem Flags.ofCode_code (state : Flags) : Flags.ofCode state.code = state := by
  cases state <;> rfl

namespace Codec

def flags : Codec Flags := uint.imap Flags.code Flags.ofCode Flags.ofCode_code

def stateMap : Codec StateMap := map size uint256 flags

end Codec

/-- An amount after which the version follows if a negative one stands before it.  Older records
have neither. -/
def readVersioned : Reader (Int × Int) := do
  let n ← amount.read
  if n < 0 then do
    let n ← amount.read
    let nVersion ← int.read
    return (n, nVersion)
  else return (n, 1)

def writeVersioned (n nVersion : Int) : List UInt8 :=
  [amount.write (-1), amount.write n, int.write nVersion].flatten

theorem reads_versioned {n nVersion : Int} (hAmount : amount.Fits n)
    (hVersion : int.Fits nVersion) :
    Reads readVersioned (writeVersioned n nVersion) (n, nVersion) := by
  refine (amount.reads (-1) ⟨by decide, by decide⟩).field ?_
  exact (amount.reads n hAmount).field ((int.reads nVersion hVersion).field
    (.done (n, nVersion)))

/-! ## Proposals -/

namespace CProposal

/-- `SerializationOp`, writing. -/
def serialize (p : CProposal) : List UInt8 :=
  [amount.write p.nAmount, writeVersioned p.nFee p.nVersion,
    string.write p.ownerAddress, uint.write p.nDeadline,
    stateMap.write p.mapState, int.write p.nVotesYes, int.write p.nVotesNo,
    string.write p.strDZeel, uint256.write p.hash, uint256.write p.txblockhash,
    uint.writeWhen (versionHas p.nVersion BASE_VERSION) p.nVotingCycle,
    int.writeWhen (versionHas p.nVersion ABSTAIN_VOTE_VERSION) p.nVotesAbs,
    string.writeWhen (versionHas p.nVersion PAYMENT_ADDRESS_VERSION) p.paymentAddress,
    int.writeWhen (versionHas p.nVersion EXCLUDE_VERSION) p.nExclude].flatten

/-- `SerializationOp`, reading into a new proposal. -/
def unserialize : Reader CProposal := do
  let nAmount ← amount.read
  let fee ← readVersioned
  let ownerAddress ← string.read
  let nDeadline ← uint.read
  let mapState ← stateMap.read
  let nVotesYes ← int.read
  let nVotesNo ← int.read
  let strDZeel ← string.read
  let hash ← uint256.read
  let txblockhash ← uint256.read
  let nVotingCycle ← uint.readWhen (versionHas fee.2 BASE_VERSION) 0
  let nVotesAbs ← int.readWhen (versionHas fee.2 ABSTAIN_VOTE_VERSION) 0
  let paymentAddress ← string.readWhen (versionHas fee.2 PAYMENT_ADDRESS_VERSION) ""
  let nExclude ← int.readWhen (versionHas fee.2 EXCLUDE_VERSION) 0
  return ⟨nAmount, fee.1, ownerAddress, paymentAddress, nDeadline, mapState, nVotesYes, nVotesNo,
    nVotesAbs, nExclude, strDZeel, hash, txblockhash, fee.2, nVotingCycle⟩

/-- The fields are values of their types. -/
structure Fits (p : CProposal) : Prop where
  nAmount : amount.Fits p.nAmount
  nFee : amount.Fits p.nFee
  nVersion : int.Fits p.nVersion
  ownerAddress : string.Fits p.ownerAddress
  nDeadline : uint.Fits p.nDeadline
  mapState : stateMap.Fits p.mapState
  nVotesYes : int.Fits p.nVotesYes
  nVotesNo : int.Fits p.nVotesNo
  strDZeel : string.Fits p.strDZeel
  hash : uint256.Fits p.hash
  txblockhash : uint256.Fits p.txblockhash
  nVotingCycle : uint.Fits p.nVotingCycle
  nVotesAbs : int.Fits p.nVotesAbs
  paymentAddress : string.Fits p.paymentAddress
  nExclude : int.Fits p.nExclude

/-- **What is read back.** -/
theorem reads {p : CProposal} (h : p.Fits) : Reads unserialize p.serialize p.stored :=
  (amount.reads _ h.nAmount).field <|
  (reads_versioned h.nFee h.nVersion).field <|
  (string.reads _ h.ownerAddress).field <|
  (uint.reads _ h.nDeadline).field <|
  (stateMap.reads _ h.mapState).field <|
  (int.reads _ h.nVotesYes).field <|
  (int.reads _ h.nVotesNo).field <|
  (string.reads _ h.strDZeel).field <|
  (uint256.reads _ h.hash).field <|
  (uint256.reads _ h.txblockhash).field <|
  (uint.reads_when _ 0 h.nVotingCycle).field <|
  (int.reads_when _ 0 h.nVotesAbs).field <|
  (string.reads_when _ "" h.paymentAddress).field <|
  (int.reads_when _ 0 h.nExclude).field (.done _)

end CProposal

/-! ## Payment requests -/

namespace CPaymentRequest

/-- `SerializationOp`, writing. -/
def serialize (r : CPaymentRequest) : List UInt8 :=
  [writeVersioned r.nAmount r.nVersion, stateMap.write r.mapState,
    int.write r.nVotesYes, int.write r.nVotesNo, uint256.write r.hash,
    uint256.write r.proposalhash, uint256.write r.txblockhash,
    string.write r.strDZeel,
    uint.writeWhen (versionHas r.nVersion BASE_VERSION) r.nVotingCycle,
    int.writeWhen (versionHas r.nVersion ABSTAIN_VOTE_VERSION) r.nVotesAbs,
    int.writeWhen (versionHas r.nVersion EXCLUDE_VERSION) r.nExclude].flatten

/-- `SerializationOp`, reading into a new payment request. -/
def unserialize : Reader CPaymentRequest := do
  let amount ← readVersioned
  let mapState ← stateMap.read
  let nVotesYes ← int.read
  let nVotesNo ← int.read
  let hash ← uint256.read
  let proposalhash ← uint256.read
  let txblockhash ← uint256.read
  let strDZeel ← string.read
  let nVotingCycle ← uint.readWhen (versionHas amount.2 BASE_VERSION) 0
  let nVotesAbs ← int.readWhen (versionHas amount.2 ABSTAIN_VOTE_VERSION) 0
  let nExclude ← int.readWhen (versionHas amount.2 EXCLUDE_VERSION) 0
  return ⟨amount.1, mapState, hash, proposalhash, txblockhash, nVotesYes, nVotesNo, nVotesAbs,
    nExclude, strDZeel, amount.2, nVotingCycle⟩

/-- The fields are values of their types. -/
structure Fits (r : CPaymentRequest) : Prop where
  nAmount : amount.Fits r.nAmount
  nVersion : int.Fits r.nVersion
  mapState : stateMap.Fits r.mapState
  nVotesYes : int.Fits r.nVotesYes
  nVotesNo : int.Fits r.nVotesNo
  hash : uint256.Fits r.hash
  proposalhash : uint256.Fits r.proposalhash
  txblockhash : uint256.Fits r.txblockhash
  strDZeel : string.Fits r.strDZeel
  nVotingCycle : uint.Fits r.nVotingCycle
  nVotesAbs : int.Fits r.nVotesAbs
  nExclude : int.Fits r.nExclude

/-- **What is read back.** -/
theorem reads {r : CPaymentRequest} (h : r.Fits) : Reads unserialize r.serialize r.stored :=
  (reads_versioned h.nAmount h.nVersion).field <|
  (stateMap.reads _ h.mapState).field <|
  (int.reads _ h.nVotesYes).field <|
  (int.reads _ h.nVotesNo).field <|
  (uint256.reads _ h.hash).field <|
  (uint256.reads _ h.proposalhash).field <|
  (uint256.reads _ h.txblockhash).field <|
  (string.reads _ h.strDZeel).field <|
  (uint.reads_when _ 0 h.nVotingCycle).field <|
  (int.reads_when _ 0 h.nVotesAbs).field <|
  (int.reads_when _ 0 h.nExclude).field (.done _)

end CPaymentRequest

/-! ## Decisions -/

/-- A view in which a parameter is 0. -/
def CStateView.zeroing (pos : ConsensusParamsPos) : CStateView :=
  { CStateView.empty with
    consensus := (∅ : Map Nat CConsensusParameter).insert pos.idx ⟨(∅ : Map Nat Nat).insert 1 0⟩ }

theorem getConsensusParameter_zeroing (env : Env) (pos : ConsensusParamsPos) :
    getConsensusParameter env (.zeroing pos) pos = 0 := by
  have hZero : (CConsensusParameter.mk ((∅ : Map Nat Nat).insert 1 0)).get = some 0 := by
    decide +kernel
  simp [getConsensusParameter, CStateView.zeroing, hZero]

namespace CProposal

variable (env : Env) (p : CProposal)

/-- The two are decided upon in the same way, whatever the view and the time. -/
def SameDecisions (p p' : CProposal) : Prop := ∀ view currentTime,
  p'.isAccepted env view = p.isAccepted env view ∧ p'.isRejected env view = p.isRejected env view ∧
    p'.isExpired env view currentTime = p.isExpired env view currentTime ∧
    p'.exceededMaxVotingCycles env view = p.exceededMaxVotingCycles env view ∧
    p'.canVote env = p.canVote env

theorem nTotalVotes_stored : p.stored.nTotalVotes = p.nTotalVotes := by
  unfold nTotalVotes stored keptFor
  split_ifs <;> rfl

theorem exclude_stored : p.stored.exclude = p.exclude := by
  unfold exclude stored keptFor
  split_ifs <;> rfl

/-- The abstentions and the exclusions are read under the bits under which they are written; the
voting cycle is not. -/
theorem sameDecisions_stored_iff : p.SameDecisions env p.stored ↔
    versionHas p.nVersion BASE_VERSION = true ∨ p.nVotingCycle = 0 := by
  constructor
  · intro hSame
    by_contra hLost
    rw [not_or] at hLost
    obtain ⟨-, -, -, hExceeded, -⟩ := hSame (.zeroing .proposalMaxVotingCycles) 0
    have hGone : p.stored.nVotingCycle = 0 := by
      simp [stored, keptFor, hLost.1]
    rw [exceededMaxVotingCycles, exceededMaxVotingCycles, getConsensusParameter_zeroing,
      decide_eq_decide] at hExceeded
    omega
  · intro hKept view currentTime
    have hCycle : p.stored.nVotingCycle = p.nVotingCycle := by
      rcases hKept with hBase | hZero
      · simp [stored, keptFor, hBase]
      · simp [stored, keptFor, hZero]
    have hQuorum : p.stored.nMinimumQuorum env view = p.nMinimumQuorum env view := by
      rw [nMinimumQuorum, hCycle]
      rfl
    have hExceeded : p.stored.exceededMaxVotingCycles env view =
        p.exceededMaxVotingCycles env view := by
      rw [exceededMaxVotingCycles, exceededMaxVotingCycles, hCycle]
    refine ⟨?_, ?_, ?_, hExceeded, rfl⟩
    · rw [isAccepted, hQuorum, nTotalVotes_stored, exclude_stored]
      rfl
    · rw [isRejected, hQuorum, nTotalVotes_stored, exclude_stored]
      rfl
    · rw [isExpired, hExceeded]
      rfl

end CProposal

namespace CPaymentRequest

variable (env : Env) (r : CPaymentRequest)

/-- The two are decided upon in the same way, whatever the view. -/
def SameDecisions (r r' : CPaymentRequest) : Prop := ∀ view,
  r'.isAccepted env view = r.isAccepted env view ∧ r'.isRejected env view = r.isRejected env view ∧
    r'.isExpired env view = r.isExpired env view ∧
    r'.exceededMaxVotingCycles env view = r.exceededMaxVotingCycles env view ∧
    r'.canVote env view = r.canVote env view

theorem nTotalVotes_stored : r.stored.nTotalVotes = r.nTotalVotes := by
  unfold nTotalVotes stored keptFor
  split_ifs <;> rfl

theorem exclude_stored : r.stored.exclude = r.exclude := by
  unfold exclude stored keptFor
  split_ifs <;> rfl

theorem sameDecisions_stored_iff : r.SameDecisions env r.stored ↔
    versionHas r.nVersion BASE_VERSION = true ∨ r.nVotingCycle = 0 := by
  constructor
  · intro hSame
    by_contra hLost
    rw [not_or] at hLost
    obtain ⟨-, -, -, hExceeded, -⟩ := hSame (.zeroing .paymentRequestMaxVotingCycles)
    have hGone : r.stored.nVotingCycle = 0 := by
      simp [stored, keptFor, hLost.1]
    rw [exceededMaxVotingCycles, exceededMaxVotingCycles, getConsensusParameter_zeroing,
      decide_eq_decide] at hExceeded
    omega
  · intro hKept view
    have hCycle : r.stored.nVotingCycle = r.nVotingCycle := by
      rcases hKept with hBase | hZero
      · simp [stored, keptFor, hBase]
      · simp [stored, keptFor, hZero]
    have hQuorum : r.stored.nMinimumQuorum env view = r.nMinimumQuorum env view := by
      rw [nMinimumQuorum, hCycle]
      rfl
    have hExceeded : r.stored.exceededMaxVotingCycles env view =
        r.exceededMaxVotingCycles env view := by
      rw [exceededMaxVotingCycles, exceededMaxVotingCycles, hCycle]
    refine ⟨?_, ?_, ?_, hExceeded, rfl⟩
    · rw [isAccepted, hQuorum, nTotalVotes_stored, exclude_stored]
      rfl
    · rw [isRejected, hQuorum, nTotalVotes_stored, exclude_stored]
      rfl
    · rw [isExpired, hExceeded]
      rfl

end CPaymentRequest

/-- **When persistence does not change a decision.**  A proposal or a payment request that was
written and read back is decided upon as before exactly if its version has the bit under which the
voting cycle is written, or it is in its first cycle. -/
theorem decisions_kept_iff (env : Env) :
    (∀ p : CProposal, p.Fits → ∃ p', CProposal.unserialize p.serialize = some (p', []) ∧
      (p.SameDecisions env p' ↔
        versionHas p.nVersion CProposal.BASE_VERSION = true ∨ p.nVotingCycle = 0)) ∧
    ∀ r : CPaymentRequest, r.Fits → ∃ r', CPaymentRequest.unserialize r.serialize = some (r', []) ∧
      (r.SameDecisions env r' ↔
        versionHas r.nVersion CPaymentRequest.BASE_VERSION = true ∨ r.nVotingCycle = 0) := by
  constructor
  · intro p hFits
    exact ⟨p.stored, (CProposal.reads hFits).run, p.sameDecisions_stored_iff env⟩
  · intro r hFits
    exact ⟨r.stored, (CPaymentRequest.reads hFits).run, r.sameDecisions_stored_iff env⟩

/-- A proposal of a version in a voting cycle. -/
def cycling (nVersion : Int) (nVotingCycle : Nat) : CProposal :=
  ⟨1000, 50000000, "owner", "", 86400, ∅, 0, 0, 0, 0, "a proposal", 5, 7, nVersion, nVotingCycle⟩

theorem cycling_fits {nVersion : Int} {nVotingCycle : Nat} (hVersion : 0 ≤ nVersion ∧ nVersion < 64)
    (hCycle : nVotingCycle < 100) : (cycling nVersion nVotingCycle).Fits := by
  have hZero : int.Fits 0 := ⟨by decide, by decide⟩
  have hText : ∀ s : String, s.toByteArray.data.toList.length ≤ MAX_SIZE → string.Fits s :=
    fun _ h => h
  exact {
    nAmount := show amount.Fits 1000 from ⟨by decide, by decide⟩
    nFee := show amount.Fits 50000000 from ⟨by decide, by decide⟩
    nVersion := show -256 ^ 4 ≤ 2 * nVersion ∧ 2 * nVersion < 256 ^ 4 by omega
    ownerAddress := hText "owner" (by decide +kernel)
    nDeadline := show 86400 < 256 ^ 4 by decide
    mapState := ⟨Nat.zero_le _, fun _ h => by cases h⟩
    nVotesYes := hZero
    nVotesNo := hZero
    strDZeel := hText "a proposal" (by decide +kernel)
    hash := show 5 < 256 ^ 32 by decide
    txblockhash := show 7 < 256 ^ 32 by decide
    nVotingCycle := show nVotingCycle < 256 ^ 4 by omega
    nVotesAbs := hZero
    paymentAddress := hText "" (by decide +kernel)
    nExclude := hZero }

theorem decisions_kept_iff_base :
    ∃ p', CProposal.unserialize (cycling 3 7).serialize = some (p', []) ∧
    (cycling 3 7).SameDecisions (Node.trusting (fun _ _ => true) ∅ []).toEnv p' := by
  obtain ⟨p', hRead, hIff⟩ := (decisions_kept_iff (Node.trusting (fun _ _ => true) ∅ []).toEnv).1
    (cycling 3 7) (cycling_fits (by decide) (by decide))
  exact ⟨p', hRead, hIff.mpr (Or.inl (by decide))⟩

/-- **The voting cycle is lost.**  A proposal of version 1, which is the one without a declared
version, exceeded its voting cycles before it was written, and has not when it is read back. -/
theorem votingCycle_lost :
    withinMask 1 (getVersionMask (Node.trusting (fun _ _ => true) ∅ []).toEnv []).nProposalMask =
      true ∧
      (cycling 1 7).exceededMaxVotingCycles (Node.trusting (fun _ _ => true) ∅ []).toEnv .empty =
        true ∧
      ∃ p', CProposal.unserialize (cycling 1 7).serialize = some (p', []) ∧
        p'.exceededMaxVotingCycles (Node.trusting (fun _ _ => true) ∅ []).toEnv .empty = false := by
  refine ⟨by decide +kernel, by decide +kernel, _,
    (CProposal.reads (cycling_fits (by decide) (by decide))).run, by decide +kernel⟩

/-! ## Consultations -/

namespace CConsultation

/-- `SerializationOp`, writing. -/
def serialize (c : CConsultation) : List UInt8 :=
  [uint64.write c.nVersion, (map anySize uint256 flags).write c.mapState, int.write c.nSupport,
    uint64.write c.nMin, uint64.write c.nMax, uint.write c.nVotingCycle, uint256.write c.hash,
    (text anySize).write c.strDZeel, uint256.write c.txblockhash,
    (map anySize uint64 uint64).write c.mapVotes, (list anySize uint256).write c.vAnswers,
    int.writeWhen (versionHas c.nVersion EXCLUDE_VERSION) c.nExclude].flatten

/-- The fields are values of their types. -/
structure Fits (c : CConsultation) : Prop where
  nVersion : uint64.Fits c.nVersion
  mapState : (map anySize uint256 flags).Fits c.mapState
  nSupport : int.Fits c.nSupport
  nMin : uint64.Fits c.nMin
  nMax : uint64.Fits c.nMax
  nVotingCycle : uint.Fits c.nVotingCycle
  hash : uint256.Fits c.hash
  strDZeel : (text anySize).Fits c.strDZeel
  txblockhash : uint256.Fits c.txblockhash
  mapVotes : (map anySize uint64 uint64).Fits c.mapVotes
  vAnswers : (list anySize uint256).Fits c.vAnswers
  nExclude : int.Fits c.nExclude

/-- `operator==`, which compares the answers of the one consultation with themselves. -/
def equals (a b : CConsultation) : Bool :=
  a.mapState = b.mapState ∧ a.hash = b.hash ∧ a.txblockhash = b.txblockhash ∧
  a.mapVotes = b.mapVotes ∧
    a.nVersion = b.nVersion ∧ a.nVotingCycle = b.nVotingCycle ∧ a.strDZeel = b.strDZeel ∧
    a.nSupport = b.nSupport ∧ a.nVotingCycle = b.nVotingCycle ∧ a.nMin = b.nMin ∧ a.nMax = b.nMax ∧
    a.nExclude = b.nExclude ∧ a.vAnswers = a.vAnswers

variable {a b : CConsultation}

theorem equals_iff : a.equals b = true ↔ { a with vAnswers := b.vAnswers } = b := by
  cases b
  simp only [equals, decide_eq_true_eq, mk.injEq]
  tauto

/-- What is written tells all the fields, if the version has the bit for the last one. -/
theorem serialize_inj (ha : a.Fits) (hb : b.Fits)
    (hVersion : versionHas a.nVersion EXCLUDE_VERSION = true) (hSame : a.serialize = b.serialize) :
    a = b := by
  obtain ⟨h1, hSame⟩ := write_cancel _ ha.nVersion hb.nVersion hSame
  obtain ⟨h2, hSame⟩ := write_cancel _ ha.mapState hb.mapState hSame
  obtain ⟨h3, hSame⟩ := write_cancel _ ha.nSupport hb.nSupport hSame
  obtain ⟨h4, hSame⟩ := write_cancel _ ha.nMin hb.nMin hSame
  obtain ⟨h5, hSame⟩ := write_cancel _ ha.nMax hb.nMax hSame
  obtain ⟨h6, hSame⟩ := write_cancel _ ha.nVotingCycle hb.nVotingCycle hSame
  obtain ⟨h7, hSame⟩ := write_cancel _ ha.hash hb.hash hSame
  obtain ⟨h8, hSame⟩ := write_cancel _ ha.strDZeel hb.strDZeel hSame
  obtain ⟨h9, hSame⟩ := write_cancel _ ha.txblockhash hb.txblockhash hSame
  obtain ⟨h10, hSame⟩ := write_cancel _ ha.mapVotes hb.mapVotes hSame
  obtain ⟨h11, hSame⟩ := write_cancel _ ha.vAnswers hb.vAnswers hSame
  rw [← h1, writeWhen, writeWhen, if_pos hVersion, if_pos hVersion] at hSame
  obtain ⟨h12, -⟩ := write_cancel _ ha.nExclude hb.nExclude hSame
  cases a
  simp_all

/-- The consultation after an edit through a modifier. -/
def edited (prev : CConsultation) (edit : CConsultation → CConsultation) : CConsultation :=
  resetNull isNull (fun _ => CStateView.nullConsultation) edit prev

/-- `~CConsultationModifier`: whether the edit is taken for a change. -/
def changed (prev : CConsultation) (edit : CConsultation → CConsultation) : Bool :=
  !prev.equals (prev.edited edit)

def DifferInAnswersOnly (a b : CConsultation) : Prop :=
  { a with vAnswers := b.vAnswers } = b ∧ a ≠ b

/-- **When the comparison is faithful.**  Two consultations whose bytes have the last field are
equal exactly when their bytes are, and an edit is taken for a change, unless they differ in the
answers only. -/
theorem equals_faithful_iff (a : CConsultation) :
    (∀ b : CConsultation, a.Fits → b.Fits → versionHas a.nVersion EXCLUDE_VERSION = true →
      versionHas b.nVersion EXCLUDE_VERSION = true →
      ((a.equals b = true ↔ a.serialize = b.serialize) ↔ ¬ a.DifferInAnswersOnly b)) ∧
    ∀ edit, (a ≠ a.edited edit → a.changed edit = true) ↔
      ¬ a.DifferInAnswersOnly (a.edited edit) := by
  refine ⟨fun b ha hb hVersion _ => ?_, fun edit => ?_⟩
  · have hBytes : a.serialize = b.serialize ↔ a = b :=
      ⟨serialize_inj ha hb hVersion, fun hSame => by rw [hSame]⟩
    rw [hBytes, equals_iff, DifferInAnswersOnly, not_and_not_right]
    refine ⟨Iff.mp, fun hSame => ⟨hSame, ?_⟩⟩
    rintro rfl
    rfl
  · rw [changed, Bool.not_eq_true', ← Bool.not_eq_true, equals_iff, DifferInAnswersOnly]
    tauto

end CConsultation

/-- A consultation with some answers. -/
def answered (vAnswers : List UInt256) : CConsultation :=
  { CStateView.nullConsultation with nVersion := 17, hash := 5, vAnswers := vAnswers }

theorem answered_fits {vAnswers : List UInt256} (hFits : (list anySize uint256).Fits vAnswers) :
    (answered vAnswers).Fits := by
  have hNone : anySize.Fits 0 := Nat.zero_le _
  have hZero : int.Fits 0 := ⟨by decide, by decide⟩
  refine ⟨?_, ⟨hNone, ?_⟩, hZero, ?_, ?_, ?_, ?_, hNone, ?_, ⟨hNone, ?_⟩, hFits, hZero⟩
  all_goals simp [answered, CStateView.nullConsultation, uint64, uint, uint256, unsigned]

/-- A consultation that gets support differs in its bytes, is not equal to what it was, and the edit
is noticed. -/
theorem equals_faithful_supported :
    let after : CConsultation := { answered [7] with nSupport := 3 }
    ((answered [7]).equals after = true ↔ (answered [7]).serialize = after.serialize) ∧
      (answered [7]).serialize ≠ after.serialize ∧
      (answered [7]).changed (fun c => { c with nSupport := 3 }) = true := by
  intro after
  have hBefore : (answered [7]).Fits :=
    answered_fits ⟨show 1 ≤ 256 ^ 8 - 1 by decide, by simp [uint256, unsigned]⟩
  have hAfter : after.Fits := { hBefore with nSupport := ⟨by decide, by decide⟩ }
  have hEdit : (answered [7]).edited (fun c => { c with nSupport := 3 }) = after := rfl
  have hOther : ¬(answered [7]).DifferInAnswersOnly after := fun h => absurd h.1 (by decide)
  obtain ⟨hEquals, hChanged⟩ := CConsultation.equals_faithful_iff (answered [7])
  refine ⟨(hEquals after hBefore hAfter (by decide) (by decide)).mpr hOther, by decide +kernel, ?_⟩
  refine (hChanged _).mpr ?_ ?_
  · rw [hEdit]
    exact hOther
  · rw [hEdit]
    decide

/-- Adding an answer goes unnoticed. -/
theorem answer_unnoticed : (answered []).equals (answered [7]) = true ∧
    (answered []).serialize ≠ (answered [7]).serialize ∧
    (answered []).changed (fun c => { c with vAnswers := c.vAnswers ++ [7] }) = false := by
  decide +kernel

end Electrum
