import Electrum.Dao.Persistence
import Electrum.Validation.ExactTallies
import Electrum.Validation.Maturity

/-!
# The stored block index

The block index is kept in a database, each entry with the votes that its block recorded.  In which
form the votes are written depends on a bit of the entry's status, which is set when consultations
are deployed at the parent; the votes on proposals and payment requests are recorded under another
deployment.

Main results:
* `CDiskBlockIndex.reads` — what is read back of an entry
* `loadBlockIndexGuts_votes` — what a restart finds of the votes of every block
* `recordedVotes_survive_iff` — when the votes that `ConnectBlock` recorded survive a restart
-/

namespace Electrum

open List Option Nat Codec

/-! ## The status of a block -/

def BLOCK_VALID_TREE : Nat := 2
def BLOCK_VALID_TRANSACTIONS : Nat := 3
def BLOCK_VALID_MASK : Nat := 7
def BLOCK_HAVE_DATA : Nat := 8
def BLOCK_HAVE_UNDO : Nat := 16
def BLOCK_FAILED_MASK : Nat := 96
def BLOCK_OPT_WITNESS : Nat := 128
def BLOCK_OPT_DAO : Nat := 256
def BLOCK_PROOF_OF_STAKE : Nat := 1

/-- `flags & bits`, as a condition. -/
def hasBits (flags bits : Nat) : Bool := flags &&& bits != 0

/-- `RaiseValidity`. -/
def raiseValidity (nStatus nUpTo : Nat) : Nat :=
  if hasBits nStatus BLOCK_FAILED_MASK then nStatus
  else if nStatus &&& BLOCK_VALID_MASK < nUpTo then
    (nStatus &&& (0xFFFFFFFF ^^^ BLOCK_VALID_MASK)) ||| nUpTo
  else nStatus

/-- The status that `ReceivedBlockTransactions` gives a block. -/
def receivedStatus (env : Env) (pprev : Chain) (nStatus : Nat) : Nat :=
  let nStatus := nStatus ||| BLOCK_HAVE_DATA
  let nStatus := if env.isActive .segwit pprev then nStatus ||| BLOCK_OPT_WITNESS else nStatus
  let nStatus := if env.isActive .consultations pprev then nStatus ||| BLOCK_OPT_DAO else nStatus
  raiseValidity nStatus BLOCK_VALID_TRANSACTIONS

/-- The statuses a block can have once its transactions were received.  Afterwards it is found valid
or failed, its data is written and pruned, and `RewindBlockIndex` takes steps back; all this is in
the lower bits. -/
inductive StatusReached (env : Env) (pprev : Chain) : Nat → Prop
  | received {nStatus : Nat} (hNew : nStatus < BLOCK_OPT_DAO) :
      StatusReached env pprev (receivedStatus env pprev nStatus)
  | receivedAgain {nStatus : Nat} (h : StatusReached env pprev nStatus) :
      StatusReached env pprev (receivedStatus env pprev nStatus)
  | raised {nStatus nUpTo : Nat} (h : StatusReached env pprev nStatus)
      (hMask : nUpTo ≤ BLOCK_VALID_MASK) : StatusReached env pprev (raiseValidity nStatus nUpTo)
  | marked {nStatus bits : Nat} (h : StatusReached env pprev nStatus) (hLow : bits < BLOCK_OPT_DAO) :
      StatusReached env pprev (nStatus ||| bits)
  | cleared {nStatus bits : Nat} (h : StatusReached env pprev nStatus)
      (hLow : bits < BLOCK_OPT_DAO) :
      StatusReached env pprev (nStatus &&& (0xFFFFFFFF ^^^ bits))

theorem hasBits_dao (nStatus : Nat) : hasBits nStatus BLOCK_OPT_DAO = nStatus.testBit 8 := by
  show (nStatus &&& 2 ^ 8 != 0) = nStatus.testBit 8
  rw [and_two_pow]
  cases nStatus.testBit 8 <;> rfl

variable {bits : Nat}

theorem testBit_of_low (hLow : bits < BLOCK_OPT_DAO) : bits.testBit 8 = false :=
  testBit_lt_two_pow hLow

theorem testBit_cleared (nStatus : Nat) (hLow : bits < BLOCK_OPT_DAO) :
    (nStatus &&& (0xFFFFFFFF ^^^ bits)).testBit 8 = nStatus.testBit 8 := by
  have hOnes : (0xFFFFFFFF : Nat).testBit 8 = true := by decide
  rw [testBit_and, testBit_xor, testBit_of_low hLow]
  exact Bool.and_true _

theorem testBit_raiseValidity (nStatus : Nat) {nUpTo : Nat} (hMask : nUpTo ≤ BLOCK_VALID_MASK) :
    (raiseValidity nStatus nUpTo).testBit 8 = nStatus.testBit 8 := by
  have hUpTo : nUpTo < BLOCK_OPT_DAO := lt_of_le_of_lt hMask (by decide)
  unfold raiseValidity
  split
  · rfl
  · split
    · rw [testBit_or, testBit_cleared nStatus (by decide), testBit_of_low hUpTo, Bool.or_false]
    · rfl

theorem testBit_receivedStatus (env : Env) (pprev : Chain) (nStatus : Nat) :
    (receivedStatus env pprev nStatus).testBit 8 =
      (nStatus.testBit 8 || env.isActive .consultations pprev) := by
  have hData : BLOCK_HAVE_DATA.testBit 8 = false := by decide
  have hWitness : BLOCK_OPT_WITNESS.testBit 8 = false := by decide
  have hDao : BLOCK_OPT_DAO.testBit 8 = true := by decide
  unfold receivedStatus
  rw [testBit_raiseValidity _ (by decide)]
  cases env.isActive .segwit pprev <;> cases env.isActive .consultations pprev <;>
    simp [testBit_or, hData, hWitness, hDao]

/-- **The bit for the votes** says whether consultations are deployed at the parent. -/
theorem StatusReached.dao {env : Env} {pprev : Chain} {nStatus : Nat}
    (h : StatusReached env pprev nStatus) :
    hasBits nStatus BLOCK_OPT_DAO = env.isActive .consultations pprev := by
  rw [hasBits_dao]
  induction h with
  | received hNew => rw [testBit_receivedStatus, testBit_of_low hNew, Bool.false_or]
  | receivedAgain _ ih => rw [testBit_receivedStatus, ih, Bool.or_self]
  | raised _ hMask ih => rw [testBit_raiseValidity _ hMask, ih]
  | marked _ hLow ih => rw [testBit_or, testBit_of_low hLow, Bool.or_false, ih]
  | cleared _ hLow ih => rw [testBit_cleared _ hLow, ih]

/-! ## Entries -/

structure CBlockHeader where
  nVersion : Int
  hashPrevBlock : UInt256
  hashMerkleRoot : UInt256
  nTime : Nat
  nBits : Nat
  nNonce : Nat
  deriving DecidableEq, Repr

/-- The fields of a block index entry that are stored, with the hash of its parent. -/
structure BlockEntry where
  nHeight : Nat
  nStatus : Nat
  nTx : Nat
  nFile : Nat
  nDataPos : Nat
  nUndoPos : Nat
  nFlags : Nat
  nStakeModifier : Nat
  hashProof : UInt256
  nVersion : Int
  hashPrev : UInt256
  hashMerkleRoot : UInt256
  nTime : Nat
  nBits : Nat
  nNonce : Nat
  nCFSupply : Int
  nCFLocked : Int
  deriving DecidableEq, Repr

/-- A new `CBlockIndex`. -/
def BlockEntry.blank : BlockEntry := ⟨0, 0, 0, 0, 0, 0, 0, 0, 0, 0, 0, 0, 0, 0, 0, 0, 0⟩

/-- The hash of the header, which is also the key of the entry in `mapBlockIndex`. -/
def BlockEntry.getBlockHash (getHash : CBlockHeader → UInt256) (e : BlockEntry) : UInt256 :=
  getHash ⟨e.nVersion, e.hashPrev, e.hashMerkleRoot, e.nTime, e.nBits, e.nNonce⟩

/-- The votes that one block recorded. -/
structure BlockVotes where
  vProposalVotes : List (UInt256 × Int)
  vPaymentRequestVotes : List (UInt256 × Int)
  mapSupport : Map UInt256 Bool
  mapConsultationVotes : Map UInt256 Nat
  deriving DecidableEq

def BlockVotes.empty : BlockVotes := ⟨[], [], ∅, ∅⟩

/-- The votes recorded for a block; a block without a record has none. -/
def RecordedVotes.of (r : RecordedVotes) (block : UInt256) : BlockVotes :=
  ⟨r.vProposalVotes[block]?.getD [], r.vPaymentRequestVotes[block]?.getD [],
    r.mapSupport[block]?.getD ∅, r.mapConsultationVotes[block]?.getD ∅⟩

/-- What is written for an entry. -/
structure CDiskBlockIndex where
  entry : BlockEntry
  prevoutStake : COutPoint
  nStakeTime : Nat
  blockHash : UInt256
  votes : BlockVotes
  deriving DecidableEq

/-! ## Bytes -/

namespace Codec

def votes : Codec (List (UInt256 × Int)) := list size (uint256.pair int)

/-- The older form of a vote, yes or not. -/
def plainVotes : Codec (List (UInt256 × Bool)) := list size (uint256.pair bool)

def support : Codec (Map UInt256 Bool) := map size uint256 bool

def consultationVotes : Codec (Map UInt256 Nat) := map size uint256 uint64

def outPoint : Codec COutPoint :=
  (uint256.pair uint).imap (fun o => (o.hash, o.n)) (fun x => ⟨x.1, x.2⟩) (fun _ => rfl)

end Codec

/-- The votes as the older form has them. -/
def toProxy (votes : List (UInt256 × Int)) : List (UInt256 × Bool) :=
  votes.map fun it => (it.1, it.2 == 1)

def ofProxy (votes : List (UInt256 × Bool)) : List (UInt256 × Int) :=
  votes.map fun it => (it.1, if it.2 then 1 else 0)

namespace BlockVotes

/-- The end of `SerializationOp`, writing; `fDAO` is `nStatus & BLOCK_OPT_DAO`. -/
def serialize (fDAO : Bool) (v : BlockVotes) : List UInt8 :=
  if fDAO then
    [votes.write v.vPaymentRequestVotes, votes.write v.vProposalVotes, support.write v.mapSupport,
      consultationVotes.write v.mapConsultationVotes].flatten
  else
    [plainVotes.write (toProxy v.vPaymentRequestVotes),
      plainVotes.write (toProxy v.vProposalVotes)].flatten

/-- The same, reading into an entry without votes. -/
def unserialize (fDAO : Bool) : Reader BlockVotes :=
  if fDAO then do
    let vPaymentRequestVotes ← votes.read
    let vProposalVotes ← votes.read
    let mapSupport ← support.read
    let mapConsultationVotes ← consultationVotes.read
    return ⟨vProposalVotes, vPaymentRequestVotes, mapSupport, mapConsultationVotes⟩
  else do
    let vPaymentRequestVotesProxy ← plainVotes.read
    let vProposalVotesProxy ← plainVotes.read
    return ⟨ofProxy vProposalVotesProxy, ofProxy vPaymentRequestVotesProxy, ∅, ∅⟩

/-- The votes are values of their types, and not more than a reader accepts. -/
structure Fits (v : BlockVotes) : Prop where
  vProposalVotes : votes.Fits v.vProposalVotes
  vPaymentRequestVotes : votes.Fits v.vPaymentRequestVotes
  mapSupport : support.Fits v.mapSupport
  mapConsultationVotes : consultationVotes.Fits v.mapConsultationVotes

/-- What is left of the votes. -/
def stored (fDAO : Bool) (v : BlockVotes) : BlockVotes :=
  if fDAO then v
  else ⟨ofProxy (toProxy v.vProposalVotes), ofProxy (toProxy v.vPaymentRequestVotes), ∅, ∅⟩

theorem toProxy_fits {l : List (UInt256 × Int)} (h : votes.Fits l) :
    plainVotes.Fits (toProxy l) := by
  refine ⟨?_, ?_⟩
  · rw [toProxy, length_map]
    exact h.1
  · intro it hIt
    obtain ⟨vote, hVote, rfl⟩ := mem_map.mp hIt
    refine ⟨(h.2 vote hVote).1, ?_⟩
    show (unsigned 1).Fits (if vote.2 == 1 then 1 else 0)
    split
    · exact (by decide : 1 < 256 ^ 1)
    · exact (by decide : 0 < 256 ^ 1)

theorem reads (fDAO : Bool) {v : BlockVotes} (h : v.Fits) :
    Reads (unserialize fDAO) (v.serialize fDAO) (v.stored fDAO) := by
  cases fDAO with
  | true =>
    exact (votes.reads _ h.vPaymentRequestVotes).field <|
      (votes.reads _ h.vProposalVotes).field <|
      (support.reads _ h.mapSupport).field <|
      (consultationVotes.reads _ h.mapConsultationVotes).field <| .done _
  | false =>
    exact (plainVotes.reads _ (toProxy_fits h.vPaymentRequestVotes)).field <|
      (plainVotes.reads _ (toProxy_fits h.vProposalVotes)).field <| .done _

end BlockVotes

def CLIENT_VERSION : Nat := 1000000

namespace CDiskBlockIndex

/-- `SerializationOp`, writing. -/
def serialize (d : CDiskBlockIndex) : List UInt8 :=
  let e := d.entry
  [varInt.write CLIENT_VERSION, varInt.write e.nHeight, varInt.write e.nStatus, varInt.write e.nTx,
    varInt.writeWhen (hasBits e.nStatus (BLOCK_HAVE_DATA ||| BLOCK_HAVE_UNDO)) e.nFile,
    varInt.writeWhen (hasBits e.nStatus BLOCK_HAVE_DATA) e.nDataPos,
    varInt.writeWhen (hasBits e.nStatus BLOCK_HAVE_UNDO) e.nUndoPos,
    uint.write e.nFlags, uint64.write e.nStakeModifier,
    outPoint.writeWhen (hasBits e.nFlags BLOCK_PROOF_OF_STAKE) d.prevoutStake,
    uint.writeWhen (hasBits e.nFlags BLOCK_PROOF_OF_STAKE) d.nStakeTime,
    uint256.write e.hashProof, int.write e.nVersion, uint256.write e.hashPrev,
    uint256.write e.hashMerkleRoot, uint.write e.nTime, uint.write e.nBits,
    uint.write e.nNonce, uint256.write d.blockHash, amount.write e.nCFSupply,
    amount.write e.nCFLocked,
    d.votes.serialize (hasBits e.nStatus BLOCK_OPT_DAO)].flatten

/-- `SerializationOp`, reading into a new entry. -/
def unserialize : Reader CDiskBlockIndex := do
  let _ ← varInt.read
  let nHeight ← varInt.read
  let nStatus ← varInt.read
  let nTx ← varInt.read
  let nFile ← varInt.readWhen (hasBits nStatus (BLOCK_HAVE_DATA ||| BLOCK_HAVE_UNDO)) 0
  let nDataPos ← varInt.readWhen (hasBits nStatus BLOCK_HAVE_DATA) 0
  let nUndoPos ← varInt.readWhen (hasBits nStatus BLOCK_HAVE_UNDO) 0
  let nFlags ← uint.read
  let nStakeModifier ← uint64.read
  let prevoutStake ←
    outPoint.readWhen (hasBits nFlags BLOCK_PROOF_OF_STAKE) ⟨0, 2 ^ 32 - 1⟩
  let nStakeTime ← uint.readWhen (hasBits nFlags BLOCK_PROOF_OF_STAKE) 0
  let hashProof ← uint256.read
  let nVersion ← int.read
  let hashPrev ← uint256.read
  let hashMerkleRoot ← uint256.read
  let nTime ← uint.read
  let nBits ← uint.read
  let nNonce ← uint.read
  let blockHash ← uint256.read
  let nCFSupply ← amount.read
  let nCFLocked ← amount.read
  let votes ← BlockVotes.unserialize (hasBits nStatus BLOCK_OPT_DAO)
  return ⟨⟨nHeight, nStatus, nTx, nFile, nDataPos, nUndoPos, nFlags, nStakeModifier, hashProof,
    nVersion, hashPrev, hashMerkleRoot, nTime, nBits, nNonce, nCFSupply, nCFLocked⟩,
    prevoutStake, nStakeTime, blockHash, votes⟩

/-- The fields are values of their types. -/
structure Fits (d : CDiskBlockIndex) : Prop where
  nFlags : uint.Fits d.entry.nFlags
  nStakeModifier : uint64.Fits d.entry.nStakeModifier
  prevoutStake : outPoint.Fits d.prevoutStake
  nStakeTime : uint.Fits d.nStakeTime
  hashProof : uint256.Fits d.entry.hashProof
  nVersion : int.Fits d.entry.nVersion
  hashPrev : uint256.Fits d.entry.hashPrev
  hashMerkleRoot : uint256.Fits d.entry.hashMerkleRoot
  nTime : uint.Fits d.entry.nTime
  nBits : uint.Fits d.entry.nBits
  nNonce : uint.Fits d.entry.nNonce
  blockHash : uint256.Fits d.blockHash
  nCFSupply : amount.Fits d.entry.nCFSupply
  nCFLocked : amount.Fits d.entry.nCFLocked
  votes : d.votes.Fits

/-- What is left of an entry: its header stays, the positions only if there is data to point to. -/
def stored (d : CDiskBlockIndex) : CDiskBlockIndex :=
  let e := d.entry
  ⟨{ e with
      nFile := if hasBits e.nStatus (BLOCK_HAVE_DATA ||| BLOCK_HAVE_UNDO) then e.nFile else 0
      nDataPos := if hasBits e.nStatus BLOCK_HAVE_DATA then e.nDataPos else 0
      nUndoPos := if hasBits e.nStatus BLOCK_HAVE_UNDO then e.nUndoPos else 0 },
    if hasBits e.nFlags BLOCK_PROOF_OF_STAKE then d.prevoutStake else ⟨0, 2 ^ 32 - 1⟩,
    if hasBits e.nFlags BLOCK_PROOF_OF_STAKE then d.nStakeTime else 0,
    d.blockHash, d.votes.stored (hasBits e.nStatus BLOCK_OPT_DAO)⟩

/-- **What is read back.** -/
theorem reads {d : CDiskBlockIndex} (h : d.Fits) : Reads unserialize d.serialize d.stored :=
  (varInt.reads CLIENT_VERSION trivial).field <|
  (varInt.reads d.entry.nHeight trivial).field <|
  (varInt.reads d.entry.nStatus trivial).field <|
  (varInt.reads d.entry.nTx trivial).field <|
  (varInt.reads_when _ 0 trivial).field <|
  (varInt.reads_when _ 0 trivial).field <|
  (varInt.reads_when _ 0 trivial).field <|
  (uint.reads _ h.nFlags).field <|
  (uint64.reads _ h.nStakeModifier).field <|
  (outPoint.reads_when _ _ h.prevoutStake).field <|
  (uint.reads_when _ 0 h.nStakeTime).field <|
  (uint256.reads _ h.hashProof).field <|
  (int.reads _ h.nVersion).field <|
  (uint256.reads _ h.hashPrev).field <|
  (uint256.reads _ h.hashMerkleRoot).field <|
  (uint.reads _ h.nTime).field <|
  (uint.reads _ h.nBits).field <|
  (uint.reads _ h.nNonce).field <|
  (uint256.reads _ h.blockHash).field <|
  (amount.reads _ h.nCFSupply).field <|
  (amount.reads _ h.nCFLocked).field <|
  (BlockVotes.reads _ h.votes).field <|
  .done _

end CDiskBlockIndex

/-! ## The database -/

/-- The records under `DB_BLOCK_INDEX`. -/
abbrev BlockTreeDB := Map UInt256 (List UInt8)

section Database

variable (getHash : CBlockHeader → UInt256)

/-- The entry that `WriteBatchSync` writes.  The constructor leaves `nStakeTime` unset. -/
def CDiskBlockIndex.ofIndex (nStakeTime : Nat) (recorded : RecordedVotes) (pindex : BlockEntry) :
    CDiskBlockIndex :=
  ⟨pindex, ⟨0, 2 ^ 32 - 1⟩, nStakeTime, pindex.getBlockHash getHash,
    recorded.of (pindex.getBlockHash getHash)⟩

/-- `WriteBatchSync`. -/
def writeBatchSync (nStakeTime : Nat) (recorded : RecordedVotes) (blockinfo : List BlockEntry)
    (db : BlockTreeDB) : BlockTreeDB :=
  blockinfo.foldl (fun db pindex => db.insert (pindex.getBlockHash getHash)
    (CDiskBlockIndex.ofIndex getHash nStakeTime recorded pindex).serialize) db

/-- What is in memory after the block index was loaded. -/
structure LoadedIndex where
  mapBlockIndex : Map UInt256 BlockEntry
  recorded : RecordedVotes

/-- `InsertBlockIndex`. -/
def insertBlockIndex (m : Map UInt256 BlockEntry) (hash : UInt256) : Map UInt256 BlockEntry :=
  if hash == 0 then m else m.insertIfNew hash .blank

/-- A record of a block, which is made only if there is something to record. -/
def insertFound {α : Type} (m : Map UInt256 α) (block : UInt256) (a : α) (fEmpty : Bool) :
    Map UInt256 α :=
  if fEmpty then m else m.insert block a

/-- The votes of a loaded entry. -/
def RecordedVotes.insertLoaded (r : RecordedVotes) (block : UInt256) (v : BlockVotes) :
    RecordedVotes :=
  ⟨insertFound r.vProposalVotes block v.vProposalVotes v.vProposalVotes.isEmpty,
    insertFound r.vPaymentRequestVotes block v.vPaymentRequestVotes v.vPaymentRequestVotes.isEmpty,
    insertFound r.mapSupport block v.mapSupport v.mapSupport.isEmpty,
    insertFound r.mapConsultationVotes block v.mapConsultationVotes v.mapConsultationVotes.isEmpty⟩

/-- One turn of the loop of `LoadBlockIndexGuts`. -/
def loadEntry (st : LoadedIndex) (diskindex : CDiskBlockIndex) : LoadedIndex :=
  let hash := diskindex.entry.getBlockHash getHash
  let m := insertBlockIndex (insertBlockIndex st.mapBlockIndex hash) diskindex.entry.hashPrev
  ⟨m.modify hash fun _ => diskindex.entry, st.recorded.insertLoaded hash diskindex.votes⟩

/-- `LoadBlockIndexGuts`, at a start. -/
def loadBlockIndexGuts (db : BlockTreeDB) : Option LoadedIndex :=
  db.keys.foldlM (fun st key => do
    let bytes ← db[key]?
    let diskindex ← CDiskBlockIndex.unserialize bytes
    return loadEntry getHash st diskindex.1) ⟨∅, .empty⟩

/-- Every record can be read, and stands under the hash of its header. -/
def BlockTreeDB.Sound (db : BlockTreeDB) : Prop :=
  ∀ key bytes, db[key]? = some bytes → ∃ diskindex rest,
    CDiskBlockIndex.unserialize bytes = some (diskindex, rest) ∧
      diskindex.entry.getBlockHash getHash = key

theorem BlockTreeDB.sound_empty : BlockTreeDB.Sound getHash ∅ := by
  intro key bytes h
  cases h

variable {getHash} {nStakeTime : Nat} {recorded : RecordedVotes} {db : BlockTreeDB}
  {blockinfo : List BlockEntry} {block : UInt256}

/-- **Writing keeps the database sound.** -/
theorem writeBatchSync_sound (hSound : db.Sound getHash)
    (hFits : ∀ e ∈ blockinfo, (CDiskBlockIndex.ofIndex getHash nStakeTime recorded e).Fits) :
    (writeBatchSync getHash nStakeTime recorded blockinfo db).Sound getHash := by
  refine foldl_invariant (fun _ (db : BlockTreeDB) => db.Sound getHash) blockinfo hSound ?_
  intro done e rest db hList hDb key bytes hAt
  have hMem : e ∈ blockinfo := by
    rw [hList]
    exact mem_append_right done (mem_cons_self ..)
  rw [Std.ExtTreeMap.getElem?_insert] at hAt
  split at hAt
  case isTrue hKey =>
    cases hAt
    exact ⟨_, [], (CDiskBlockIndex.reads (hFits e hMem)).run, Std.LawfulEqCmp.eq_of_compare hKey⟩
  case isFalse => exact hDb key bytes hAt

variable {e : BlockEntry} {α : Type} {block' : UInt256}

theorem getD_insertFound {m : Map UInt256 α} {a zero : α}
    {fEmpty : Bool} (hEmpty : fEmpty = true → a = zero) (hOld : m[block]?.getD zero = zero) :
    (insertFound m block a fEmpty)[block]?.getD zero = a := by
  cases fEmpty with
  | true => exact hOld.trans (hEmpty rfl).symm
  | false => rw [insertFound, if_neg Bool.false_ne_true, Std.ExtTreeMap.getElem?_insert_self]; rfl

theorem getElem?_insertFound_ne (m : Map UInt256 α) (a : α) (fEmpty : Bool) (hNe : block' ≠ block) :
    (insertFound m block a fEmpty)[block']? = m[block']? := by
  cases fEmpty with
  | true => rfl
  | false =>
    rw [insertFound, if_neg Bool.false_ne_true, Std.ExtTreeMap.getElem?_insert, if_neg]
    simpa using Ne.symm hNe

theorem RecordedVotes.of_insertLoaded {r : RecordedVotes} {v : BlockVotes}
    (hNone : r.of block = .empty) : (r.insertLoaded block v).of block = v := by
  obtain ⟨hProposals, hRequests, hSupport, hConsultations⟩ := BlockVotes.mk.inj hNone
  have hList : ∀ l : List (UInt256 × Int), l.isEmpty = true → l = [] :=
    fun l h => isEmpty_iff.mp h
  rw [RecordedVotes.of, insertLoaded, getD_insertFound (hList _) hProposals,
    getD_insertFound (hList _) hRequests,
    getD_insertFound Std.ExtTreeMap.isEmpty_iff.mp hSupport,
    getD_insertFound Std.ExtTreeMap.isEmpty_iff.mp hConsultations]

theorem RecordedVotes.of_insertLoaded_ne (r : RecordedVotes)
    (v : BlockVotes) (hNe : block' ≠ block) : (r.insertLoaded block v).of block' = r.of block' := by
  simp only [RecordedVotes.of, insertLoaded, getElem?_insertFound_ne _ _ _ hNe]

/-- One turn of the loop, over a sound database. -/
theorem BlockTreeDB.Sound.turn (hSound : db.Sound getHash) {key : UInt256} {st st' : LoadedIndex}
    (h : (do
      let bytes ← db[key]?
      let diskindex ← CDiskBlockIndex.unserialize bytes
      return loadEntry getHash st diskindex.1) = some st') :
    ∃ bytes diskindex rest, db[key]? = some bytes ∧
      CDiskBlockIndex.unserialize bytes = some (diskindex, rest) ∧
      st'.recorded = st.recorded.insertLoaded key diskindex.votes := by
  simp only [bind_eq_bind, bind_eq_some_iff] at h
  obtain ⟨bytes, hAt, ⟨diskindex, rest⟩, hRead, hEq⟩ := h
  cases hEq
  obtain ⟨diskindex', rest', hRead', hKey⟩ := hSound key bytes hAt
  rw [hRead] at hRead'
  cases hRead'
  refine ⟨bytes, diskindex, rest, hAt, hRead, ?_⟩
  show st.recorded.insertLoaded (diskindex.entry.getBlockHash getHash) diskindex.votes = _
  rw [hKey]

/-- **A restart.** The database is loaded, and each block in it has the votes of its record. -/
theorem loadBlockIndexGuts_votes (hSound : db.Sound getHash) :
    ∃ loaded, loadBlockIndexGuts getHash db = some loaded ∧ ∀ key bytes, db[key]? = some bytes →
        (CDiskBlockIndex.unserialize bytes).map (·.1.votes) = some (loaded.recorded.of key) := by
  have hTotal : ∀ st : LoadedIndex, ∀ key ∈ db.keys, ∃ st', (do
      let bytes ← db[key]?
      let diskindex ← CDiskBlockIndex.unserialize bytes
      return loadEntry getHash st diskindex.1) = some st' := by
    intro st key hKey
    obtain ⟨bytes, hAt⟩ := isSome_iff_exists.mp ((Map.mem_keys_iff db key).mp hKey)
    obtain ⟨diskindex, rest, hRead, -⟩ := hSound key bytes hAt
    refine ⟨loadEntry getHash st diskindex, ?_⟩
    rw [hAt, bind_eq_bind, bind_some, hRead]
    rfl
  obtain ⟨loaded, hLoad⟩ := foldlM_option_total hTotal ⟨∅, .empty⟩
  refine ⟨loaded, hLoad, fun key bytes hAt => ?_⟩
  -- each key has its own turn, before which its block has no votes
  obtain ⟨-, hTurns⟩ := foldlM_turn (fun (st : LoadedIndex) key => st.recorded.of key)
    (fun _ => True) (fun _ _ _ _ _ => trivial)
    (fun st k st' k' _ hStep hNe => by
      obtain ⟨_, diskindex, _, -, -, hVotes⟩ := hSound.turn hStep
      rw [hVotes]
      exact RecordedVotes.of_insertLoaded_ne _ _ hNe)
    (Map.nodup_keys db) trivial hLoad
  have hKey : key ∈ db.keys := by
    rw [Map.mem_keys_iff, hAt]
    rfl
  obtain ⟨st, st', -, hFirst, hStep, hEnd⟩ := (hTurns key).2 hKey
  obtain ⟨bytes', diskindex, rest, hAt', hRead, hVotes⟩ := hSound.turn hStep
  rw [hAt] at hAt'
  cases hAt'
  have hOwn : st'.recorded.of key = diskindex.votes := by
    rw [hVotes]
    exact RecordedVotes.of_insertLoaded hFirst
  rw [hRead]
  exact congrArg some (hOwn.symm.trans hEnd.symm)

/-- **Writing and loading.** A block of the batch has what the database keeps of its votes. -/
theorem restart_votes (hSound : db.Sound getHash)
    (hNodup : (blockinfo.map (·.getBlockHash getHash)).Nodup)
    (hFits : ∀ e ∈ blockinfo, (CDiskBlockIndex.ofIndex getHash nStakeTime recorded e).Fits)
    (hMem : e ∈ blockinfo) :
    ∃ loaded, loadBlockIndexGuts getHash (writeBatchSync getHash nStakeTime recorded blockinfo db) =
        some loaded ∧
      loaded.recorded.of (e.getBlockHash getHash) =
        (recorded.of (e.getBlockHash getHash)).stored (hasBits e.nStatus BLOCK_OPT_DAO) := by
  obtain ⟨loaded, hLoad, hVotes⟩ := loadBlockIndexGuts_votes (writeBatchSync_sound hSound hFits)
  refine ⟨loaded, hLoad, ?_⟩
  have hOwn := hVotes _ _ (Map.getElem?_foldl_insert _ _ hNodup hMem db)
  rw [(CDiskBlockIndex.reads (hFits e hMem)).run] at hOwn
  exact (some.inj hOwn).symm

end Database

/-! ## The votes of ConnectBlock -/

/-- Every vote is yes or no. -/
def PlainVotes (votes : List (UInt256 × Int)) : Prop :=
  ∀ it ∈ votes, it.2 = VOTE_NO ∨ it.2 = VOTE_YES

theorem ofProxy_toProxy_iff (votes : List (UInt256 × Int)) :
    ofProxy (toProxy votes) = votes ↔ PlainVotes votes := by
  induction votes with
  | nil => exact ⟨fun _ it hIt => absurd hIt not_mem_nil, fun _ => rfl⟩
  | cons it rest ih =>
    have hVote : ((if it.2 == 1 then 1 else 0 : Int) = it.2) ↔ it.2 = 0 ∨ it.2 = 1 := by
      split
      case isTrue hYes => exact ⟨fun h => Or.inr h.symm, fun _ => (by simpa using hYes : it.2 = 1).symm⟩
      case isFalse hNot =>
        have hNe : it.2 ≠ 1 := by simpa using hNot
        exact ⟨fun h => Or.inl h.symm, fun h => (h.resolve_right hNe).symm⟩
    show (it.1, if it.2 == 1 then (1 : Int) else 0) :: ofProxy (toProxy rest) = it :: rest ↔
      ∀ x ∈ it :: rest, x.2 = 0 ∨ x.2 = 1
    rw [cons_eq_cons, ih, forall_mem_cons, ← hVote]
    exact and_congr_left fun _ => ⟨fun h => congrArg Prod.snd h, fun h => Prod.ext rfl h⟩

/-- **What the older form keeps.** -/
theorem BlockVotes.stored_eq_iff (fDAO : Bool) (v : BlockVotes) :
    v.stored fDAO = v ↔ fDAO = true ∨ (PlainVotes v.vProposalVotes ∧
      PlainVotes v.vPaymentRequestVotes ∧ v.mapSupport = ∅ ∧ v.mapConsultationVotes = ∅) := by
  cases fDAO with
  | true => exact ⟨fun _ => Or.inl rfl, fun _ => rfl⟩
  | false =>
    rw [← ofProxy_toProxy_iff, ← ofProxy_toProxy_iff]
    constructor
    · intro h
      obtain ⟨hProposals, hRequests, hSupport, hConsultations⟩ := BlockVotes.mk.inj h
      exact Or.inr ⟨hProposals, hRequests, hSupport.symm, hConsultations.symm⟩
    · rintro (h | ⟨hProposals, hRequests, hSupport, hConsultations⟩)
      · cases h
      · show BlockVotes.mk _ _ ∅ ∅ = v
        rw [hProposals, hRequests, ← hSupport, ← hConsultations]

/-- **When recorded votes survive a restart.**  `ConnectBlock` recorded votes for a block, which had
at most such votes before; the entry of the block is written with others and the database is loaded.
The votes of the block are the same exactly if consultations were deployed, or every vote on a
proposal or a payment request says yes or no. -/
theorem recordedVotes_survive_iff {getHash : CBlockHeader → UInt256} {db : BlockTreeDB}
    (hSound : db.Sound getHash) {node : Node} {block : CBlock} {pindex : CBlockIndex} {pprev : Chain}
    {fund : Fund} {recorded : RecordedVotes} {view : CStateView} {r : Connected}
    (hConnect : connectBlock node block pindex pprev fund recorded view = .ok r)
    (hBefore : node.isActive .consultations pprev = false →
      (recorded.of block.hash).mapSupport = ∅ ∧ (recorded.of block.hash).mapConsultationVotes = ∅)
    {blockinfo : List BlockEntry} (hNodup : (blockinfo.map (·.getBlockHash getHash)).Nodup)
    {nStakeTime : Nat}
    (hFits : ∀ e ∈ blockinfo, (CDiskBlockIndex.ofIndex getHash nStakeTime r.recorded e).Fits)
    {entry : BlockEntry} (hMem : entry ∈ blockinfo)
    (hHash : entry.getBlockHash getHash = block.hash)
    (hStatus : StatusReached node.toEnv pprev entry.nStatus) :
    ∃ loaded,
      loadBlockIndexGuts getHash (writeBatchSync getHash nStakeTime r.recorded blockinfo db) =
        some loaded ∧
      (loaded.recorded.of block.hash = r.recorded.of block.hash ↔
        node.isActive .consultations pprev = true ∨
          (PlainVotes (r.recorded.of block.hash).vProposalVotes ∧
            PlainVotes (r.recorded.of block.hash).vPaymentRequestVotes)) := by
  obtain ⟨loaded, hLoad, hVotes⟩ := restart_votes hSound hNodup hFits hMem
  refine ⟨loaded, hLoad, ?_⟩
  rw [hHash, hStatus.dao] at hVotes
  rw [hVotes, BlockVotes.stored_eq_iff]
  cases hActive : node.isActive .consultations pprev with
  | true => exact ⟨fun _ => Or.inl rfl, fun _ => Or.inl rfl⟩
  | false =>
    -- without consultations nothing is lost of them
    have hRecording := connectBlock_recording node block pindex pprev fund recorded view
    rw [hConnect, hActive] at hRecording
    obtain ⟨hSupport, hConsultations⟩ := Recording.undeployed hRecording
    obtain ⟨hNone, hNone'⟩ := hBefore hActive
    have hEnd : (r.recorded.of block.hash).mapSupport = ∅ ∧
        (r.recorded.of block.hash).mapConsultationVotes = ∅ := by
      rw [RecordedVotes.of, hSupport, hConsultations]
      exact ⟨hNone, hNone'⟩
    exact or_congr_right ⟨fun h => ⟨h.1, h.2.1⟩, fun h => ⟨h.1, h.2, hEnd.1, hEnd.2⟩⟩

/-! ## An abstention -/

/-- The entry of the block that abstains, whose hash is told by its time. -/
def abstainEntry (nStatus : Nat) : BlockEntry :=
  ⟨8, nStatus, 1, 0, 0, 0, 0, 0, 0, 1, 7, 0, 8, 0, 0, 0, 0⟩

/-- The votes of that block. -/
def abstention : BlockVotes := ⟨[(2007, VOTE_ABSTAIN)], [], ∅, ∅⟩

theorem abstainEntry_nodup (nStatus : Nat) :
    ([abstainEntry nStatus].map (·.getBlockHash (·.nTime))).Nodup := nodup_singleton _

theorem abstainEntry_fits (nStatus : Nat) {recorded : RecordedVotes}
    (hVotes : recorded.of 8 = abstention) :
    (CDiskBlockIndex.ofIndex (·.nTime) 0 recorded (abstainEntry nStatus)).Fits := by
  have hUint : ∀ n < 9, uint.Fits n := fun n h => lt_trans h (by decide)
  have hHash : ∀ n < 2008, uint256.Fits n := fun n h => lt_trans h (by decide)
  have hZero : amount.Fits 0 := ⟨by decide, by decide⟩
  have hOne : int.Fits 1 := ⟨by decide, by decide⟩
  exact {
    nFlags := hUint 0 (by decide)
    nStakeModifier := (by decide : 0 < 256 ^ 8)
    prevoutStake := ⟨hHash 0 (by decide), (by decide : 2 ^ 32 - 1 < 256 ^ 4)⟩
    nStakeTime := hUint 0 (by decide)
    hashProof := hHash 0 (by decide)
    nVersion := hOne
    hashPrev := hHash 7 (by decide)
    hashMerkleRoot := hHash 0 (by decide)
    nTime := hUint 8 (by decide)
    nBits := hUint 0 (by decide)
    nNonce := hUint 0 (by decide)
    blockHash := hHash 8 (by decide)
    nCFSupply := hZero
    nCFLocked := hZero
    votes := by
      show (recorded.of 8).Fits
      rw [hVotes]
      exact {
        vProposalVotes := ⟨(by decide : 1 ≤ MAX_SIZE), forall_mem_singleton.mpr
          ⟨hHash 2007 (by decide), ⟨by decide, by decide⟩⟩⟩
        vPaymentRequestVotes := ⟨(by decide : 0 ≤ MAX_SIZE), fun _ h => absurd h not_mem_nil⟩
        mapSupport := ⟨(by decide : 0 ≤ MAX_SIZE), fun _ h => absurd h not_mem_nil⟩
        mapConsultationVotes := ⟨(by decide : 0 ≤ MAX_SIZE), fun _ h => absurd h not_mem_nil⟩ } }

/-- With consultations deployed the abstention survives. -/
theorem recordedVotes_survive_abstention : ∃ st r loaded,
    connectOn tallyNode voteChain abstainBlock = some (st, r) ∧
    loadBlockIndexGuts (·.nTime) (writeBatchSync (·.nTime) 0 r.recorded
      [abstainEntry (receivedStatus tallyNode.toEnv st.chain BLOCK_VALID_TREE)] ∅) = some loaded ∧
    loaded.recorded.of 8 = r.recorded.of 8 := by
  obtain ⟨st, r, hSome, hNone, hVotes⟩ : ∃ st r, connectOn tallyNode voteChain abstainBlock =
      some (st, r) ∧ st.recorded.of 8 = .empty ∧ r.recorded.of 8 = abstention := by
    decide +kernel
  obtain ⟨loaded, hLoad, hIff⟩ := recordedVotes_survive_iff (BlockTreeDB.sound_empty (·.nTime))
    (connectOn_some hSome).2 (fun _ => by
      rw [show abstainBlock.hash = 8 from rfl, hNone]
      exact ⟨rfl, rfl⟩)
    (abstainEntry_nodup (receivedStatus tallyNode.toEnv st.chain BLOCK_VALID_TREE))
    (forall_mem_singleton.mpr (abstainEntry_fits _ hVotes)) (mem_singleton_self _) rfl
    (.received (by decide))
  exact ⟨st, r, loaded, hSome, hLoad, hIff.mpr (Or.inl rfl)⟩

/-- A node on whose network consultations are not deployed yet. -/
def earlyNode : Node := { tallyNode with isActive := fun pos _ => pos != .consultations }

/-- **An abstention becomes a no.**  Without consultations the block records it all the same, and
after a restart it counts against the proposal. -/
theorem abstention_lost : ∃ st r loaded,
    connectOn earlyNode voteChain abstainBlock = some (st, r) ∧
    r.recorded.of 8 = abstention ∧
    loadBlockIndexGuts (·.nTime) (writeBatchSync (·.nTime) 0 r.recorded
      [abstainEntry (receivedStatus earlyNode.toEnv st.chain BLOCK_VALID_TREE)] ∅) = some loaded ∧
    loaded.recorded.of 8 = ⟨[(2007, VOTE_NO)], [], ∅, ∅⟩ := by
  obtain ⟨st, r, hSome, hVotes⟩ : ∃ st r, connectOn earlyNode voteChain abstainBlock =
      some (st, r) ∧ r.recorded.of 8 = abstention := by
    decide +kernel
  obtain ⟨loaded, hLoad, hEnd⟩ := restart_votes (BlockTreeDB.sound_empty (·.nTime))
    (abstainEntry_nodup _) (forall_mem_singleton.mpr (abstainEntry_fits
      (receivedStatus earlyNode.toEnv st.chain BLOCK_VALID_TREE) hVotes))
    (mem_singleton_self _)
  have hStatus : StatusReached earlyNode.toEnv st.chain
      (receivedStatus earlyNode.toEnv st.chain BLOCK_VALID_TREE) := .received (by decide)
  refine ⟨st, r, loaded, hSome, hVotes, hLoad, hEnd.trans ?_⟩
  show (r.recorded.of 8).stored (hasBits (receivedStatus earlyNode.toEnv st.chain
    BLOCK_VALID_TREE) BLOCK_OPT_DAO) = _
  rw [hStatus.dao, hVotes]
  rfl

end Electrum
