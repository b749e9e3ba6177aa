import Electrum.Dao.VoteCount

/-!
# VoteStep

`VoteStep` runs after every connected and every disconnected block.  It stores the counted
votes in the objects, and at the last block of a cycle moves the objects to their next state.

An exception or a failed assertion of the source is `none`.
-/

namespace Electrum

/-- What `VoteStep` fixes at its start. -/
structure StepContext where
  env : Env
  pindexNew : CBlockIndex
  /-- the block being disconnected, when `fUndo` is set -/
  pindexDelete : Option CBlockIndex
  nCycleLength : Nat
  fScanningWholeCycle : Bool
  nCacheExclude : Int

namespace StepContext

/-- `(pindexNew->nHeight + 1) % nCycleLength == 0`. -/
def isCycleEnd (s : StepContext) : Bool := (s.pindexNew.nHeight + 1) % s.nCycleLength == 0

/-- `nVotingCycles` of an object created in `pblockindex`, as stored in an `unsigned int`. -/
def nVotingCycles (s : StepContext) (pblockindex : CBlockIndex) (bound : Nat) : Nat :=
  min (sub64 (s.pindexNew.nHeight / s.nCycleLength) (pblockindex.nHeight / s.nCycleLength))
    (bound % 2 ^ 64) % 2 ^ 32

end StepContext

/-- The block of an object; an object without one, or with an unknown one, is skipped. -/
def Env.blockOf (env : Env) (txblockhash : UInt256) : Option CBlockIndex :=
  if txblockhash == 0 then none else env.mapBlockIndex[txblockhash]?

/-! ## Undoing a state change -/

def CProposal.undoState (s : StepContext) (pindexDelete pblockindex : CBlockIndex) (bound : Nat)
    (p : CProposal) : CProposal :=
  let p := p.clearState pindexDelete
  if p.getLastState s.env.mapBlockIndex == .nil then
    { p with nVotingCycle := s.nVotingCycles pblockindex bound }
  else p

def CPaymentRequest.undoState (s : StepContext) (pindexDelete pblockindex : CBlockIndex)
    (bound : Nat) (r : CPaymentRequest) : CPaymentRequest :=
  let r := r.clearState pindexDelete
  if r.getLastState s.env.mapBlockIndex == .nil then
    { r with nVotingCycle := s.nVotingCycles pblockindex bound }
  else r

def CConsultation.undoState (s : StepContext) (pindexDelete pblockindex : CBlockIndex)
    (bound : Nat) (c : CConsultation) : CConsultation :=
  let c := c.clearState pindexDelete
  if c.isFinished s.env then c
  else { c with nVotingCycle := s.nVotingCycles pblockindex bound }

/-! ## Storing the counts -/

/-- The view and `mapSeen`. -/
abbrev Tally := CStateView × List UInt256

def tallyProposal (s : StepContext) (st : Tally) (hash : UInt256) (count : VoteCount) : Tally :=
  match st.1.getProposal hash with
  | none => st
  | some p =>
    match s.env.blockOf p.txblockhash with
    | none => st
    | some pblockindex =>
      let bound := getConsensusParameter s.env st.1 .proposalMaxVotingCycles + 1
      let (p, view) := match s.pindexDelete with
        | some pindexDelete =>
          let p := p.undoState s pindexDelete pblockindex bound
          (p, st.1.setProposal hash p)
        | none => (p, st.1)
      if !p.canVote s.env then (view, st.2)
      else
        (view.setProposal hash
          { p with nVotesYes := count.yes, nVotesAbs := count.abs, nVotesNo := count.no },
          p.hash :: st.2)

def tallyPaymentRequest (s : StepContext) (st : Tally) (hash : UInt256) (count : VoteCount) :
    Tally :=
  match st.1.getPaymentRequest hash with
  | none => st
  | some r =>
    match s.env.blockOf r.txblockhash with
    | none => st
    | some pblockindex =>
      let bound := getConsensusParameter s.env st.1 .paymentRequestMaxVotingCycles + 1
      let (r, view) := match s.pindexDelete with
        | some pindexDelete =>
          let r := r.undoState s pindexDelete pblockindex bound
          (r, st.1.setPaymentRequest hash r)
        | none => (r, st.1)
      if !r.canVote s.env view then (view, st.2)
      else
        (view.setPaymentRequest hash
          { r with nVotesYes := count.yes, nVotesAbs := count.abs, nVotesNo := count.no },
          r.hash :: st.2)

/-- The view and `mapSeenSupport`; support goes to a consultation or, failing that, an answer. -/
def tallySupport (s : StepContext) (st : Tally) (hash : UInt256) (count : Int) : Tally :=
  match st.1.getConsultation hash with
  | some c =>
    match s.env.blockOf c.txblockhash with
    | none => st
    | some pblockindex =>
      let bound := getConsensusParameter s.env st.1 .consultationMaxVotingCycles +
        getConsensusParameter s.env st.1 .consultationReflectionLength +
        getConsensusParameter s.env st.1 .consultationMaxSupportCycles
      let (c, view) := match s.pindexDelete with
        | some pindexDelete =>
          let c := c.undoState s pindexDelete pblockindex bound
          (c, st.1.setConsultation hash c)
        | none => (c, st.1)
      if !c.canBeSupported s.env then (view, st.2)
      else (view.setConsultation hash { c with nSupport := count }, c.hash :: st.2)
  | none =>
    match st.1.getConsultationAnswer hash with
    | none => st
    | some a =>
      match s.env.blockOf a.txblockhash with
      | none => st
      | some _ =>
        let (a, view) := match s.pindexDelete with
          | some pindexDelete =>
            let a := a.clearState pindexDelete
            (a, st.1.setConsultationAnswer hash a)
          | none => (a, st.1)
        if !a.canBeSupported s.env view then (view, st.2)
        else (view.setConsultationAnswer hash { a with nSupport := count }, a.hash :: st.2)

/-- The view, `mapSeen` and `mapAlreadyCleared`. -/
def tallyConsultation (s : StepContext) (st : Tally × List UInt256) (key : UInt256 × Int)
    (count : Int) : Tally × List UInt256 :=
  match st.1.1.getConsultation key.1 with
  | some c =>
    match s.env.blockOf c.txblockhash with
    | none => st
    | some pblockindex =>
      let bound := getConsensusParameter s.env st.1.1 .consultationMaxVotingCycles + 1
      let (c, view) := match s.pindexDelete with
        | some pindexDelete =>
          let c := c.undoState s pindexDelete pblockindex bound
          (c, st.1.1.setConsultation key.1 c)
        | none => (c, st.1.1)
      if !(c.canBeVoted s.env key.2 && c.isValidVote key.2) then ((view, st.1.2), st.2)
      else
        let clear := s.fScanningWholeCycle && !st.2.contains key.1
        let mapVotes := if clear then ∅ else c.mapVotes
        ((view.setConsultation key.1
          { c with mapVotes := mapVotes.insert (toU64 key.2) (toU64 count) },
          key.1 :: st.1.2), if clear then key.1 :: st.2 else st.2)
  | none =>
    match st.1.1.getConsultationAnswer key.1 with
    | none => st
    | some a =>
      match s.env.blockOf a.txblockhash with
      | none => st
      | some _ =>
        let (a, view) := match s.pindexDelete with
          | some pindexDelete =>
            let a := a.clearState pindexDelete
            (a, st.1.1.setConsultationAnswer key.1 a)
          | none => (a, st.1.1)
        if !a.canBeVoted s.env view then ((view, st.1.2), st.2)
        else ((view.setConsultationAnswer key.1 { a with nVotes := count }, key.1 :: st.1.2), st.2)

/-! ## Storing the number of excluded blocks -/

def excludePaymentRequest (s : StepContext) (view : CStateView) (hash : UInt256) : CStateView :=
  match view.getPaymentRequest hash with
  | none => view
  | some r =>
    if r.canVote s.env view then view.setPaymentRequest hash { r with nExclude := s.nCacheExclude }
    else view

def excludeProposal (s : StepContext) (view : CStateView) (hash : UInt256) : CStateView :=
  match view.getProposal hash with
  | none => view
  | some p =>
    if p.canVote s.env then view.setProposal hash { p with nExclude := s.nCacheExclude } else view

def excludeConsultation (s : StepContext) (view : CStateView) (hash : UInt256) : CStateView :=
  match view.getConsultation hash with
  | none => view
  | some c =>
    if c.getLastState s.env.mapBlockIndex == .accepted then
      view.setConsultation hash { c with nExclude := s.nCacheExclude }
    else view

def excludeAnswer (s : StepContext) (view : CStateView) (hash : UInt256) : CStateView :=
  match view.getConsultationAnswer hash with
  | none => view
  | some a =>
    if a.canBeVoted s.env view then
      view.setConsultationAnswer hash { a with nExclude := s.nCacheExclude }
    else view

/-! ## State changes -/

/-- `nCFSupply` and `nCFLocked` of the block being connected. -/
structure Fund where
  nCFSupply : Int
  nCFLocked : Int
  deriving DecidableEq, Repr

/-- The state a payment request enters at a cycle end, if any; `oldState` is its state and
`proposal` its proposal. -/
def CPaymentRequest.nextState (env : Env) (view : CStateView) (fund : Fund)
    (proposal : CProposal) (r : CPaymentRequest) (oldState : Flags) : Option Flags :=
  if r.isExpired env view then
    if oldState != .expired then some .expired else none
  else if r.isRejected env view then
    if oldState != .rejected then some .rejected else none
  else if oldState == .nil then
    let proposalOldState := proposal.getLastState env.mapBlockIndex
    if (proposalOldState == .accepted || proposalOldState == .pendingVotingPreq) &&
        r.isAccepted env view && decide (r.nAmount ≤ fund.nCFLocked) &&
        decide (r.nAmount ≤ proposal.getAvailable env view false) then some .accepted
    else none
  else none

def stepPaymentRequest (s : StepContext) (st : CStateView × Fund) (hash : UInt256) :
    CStateView × Fund :=
  match st.1.getPaymentRequest hash with
  | none => st
  | some r =>
    match s.env.blockOf r.txblockhash, st.1.getProposal r.proposalhash with
    | some pblockindex, some proposal =>
      -- the bound is the cycle length here, not the number of voting cycles
      let bound := s.nCycleLength + 1
      match s.pindexDelete with
      | some pindexDelete =>
        (st.1.setPaymentRequest hash (r.undoState s pindexDelete pblockindex bound), st.2)
      | none =>
        let oldState := r.getLastState s.env.mapBlockIndex
        let r := if oldState == .nil then
          { r with nVotingCycle := s.nVotingCycles pblockindex bound } else r
        let view := st.1.setPaymentRequest hash r
        if !s.isCycleEnd then (view, st.2)
        else match r.nextState s.env view st.2 proposal oldState with
          | none => (view, st.2)
          | some state =>
            (view.setPaymentRequest hash (r.setState s.pindexNew state), if state == .accepted then
                { st.2 with nCFLocked := st.2.nCFLocked - r.nAmount }
              else st.2)
    | _, _ => st

/-- The state a proposal enters at a cycle end, if any. -/
def CProposal.nextState (env : Env) (view : CStateView) (fund : Fund) (currentTime : Nat)
    (p : CProposal) (oldState : Flags) : Option Flags :=
  if p.isExpired env view currentTime then
    if oldState != .expired then
      if p.hasPendingPaymentRequests env view then some .pendingVotingPreq else some .expired
    else none
  else if p.isRejected env view then
    if oldState != .rejected then some .rejected else none
  else if p.isAccepted env view then
    if oldState == .nil || oldState == .pendingFunds then
      if p.getAvailable env view false ≤ fund.nCFSupply then some .accepted
      else if oldState != .pendingFunds then some .pendingFunds else none
    else none
  else none

/-- The fund after a proposal leaves `oldState` for `state` with `available` coins. -/
def Fund.onProposal (fund : Fund) (available : Int) (oldState state : Flags) : Fund :=
  if state == .expired && (oldState == .accepted || oldState == .pendingVotingPreq) then
    ⟨fund.nCFSupply + available, fund.nCFLocked - available⟩
  else if state == .accepted then ⟨fund.nCFSupply - available, fund.nCFLocked + available⟩
  else fund

def stepProposal (s : StepContext) (st : CStateView × Fund) (hash : UInt256) :
    CStateView × Fund :=
  match st.1.getProposal hash with
  | none => st
  | some p =>
    match s.env.blockOf p.txblockhash with
    | none => st
    | some pblockindex =>
      let bound := getConsensusParameter s.env st.1 .proposalMaxVotingCycles + 1
      match s.pindexDelete with
      | some pindexDelete =>
        (st.1.setProposal hash (p.undoState s pindexDelete pblockindex bound), st.2)
      | none =>
        let oldState := p.getLastState s.env.mapBlockIndex
        let p := if oldState == .nil then
          { p with nVotingCycle := s.nVotingCycles pblockindex bound } else p
        let view := st.1.setProposal hash p
        if !s.isCycleEnd then (view, st.2)
        else match p.nextState s.env view st.2 s.pindexNew.nTime oldState with
          | none => (view, st.2)
          | some state =>
            (view.setProposal hash (p.setState s.pindexNew state),
              st.2.onProposal (p.getAvailable s.env view false) oldState state)

/-- `stoll`: leading blanks, a sign, then digits; `none` is the exception. -/
def stoll (str : String) : Option Int :=
  let chars := str.toList.dropWhile fun ch => ch.isWhitespace || ch == '\u000b' || ch == '\u000c'
  let (neg, digits) : Bool × List Char := match chars with
    | '-' :: rest => (true, rest)
    | '+' :: rest => (false, rest)
    | rest => (false, rest)
  let digits := digits.takeWhile (·.isDigit)
  let n : Nat := digits.foldl (fun n ch => 10 * n + (ch.toNat - '0'.toNat)) 0
  let z : Int := if neg then -(n : Int) else n
  if digits.isEmpty || decide (z < -2 ^ 63) || decide (2 ^ 63 ≤ z) then none else some z

/-- The view and `mapConsensusToChange`. -/
def stepAnswer (s : StepContext) (st : CStateView × Map Nat Nat) (hash : UInt256) :
    Option (CStateView × Map Nat Nat) :=
  match st.1.getConsultationAnswer hash with
  | none => some st
  | some a =>
    match s.env.blockOf a.txblockhash with
    | none => some st
    | some _ =>
      match s.pindexDelete with
      | some pindexDelete => some (st.1.setConsultationAnswer hash (a.clearState pindexDelete), st.2)
      | none =>
        if !s.isCycleEnd then some st
        else
          let oldState := a.getLastState s.env.mapBlockIndex
          let a := if a.isSupported s.env st.1 && oldState == .nil then
            a.setState s.pindexNew .accepted else a
          let view := st.1.setConsultationAnswer hash a
          if a.isConsensusAccepted s.env view && oldState != .passed then
            match view.getConsultation a.parent with
            | none => some (view, st.2)
            | some parent =>
              if parent.isAboutConsensusParameter then
                -- `insert` keeps the value of an earlier answer for the same parameter
                (stoll a.sAnswer).map fun value =>
                  (view.setConsultationAnswer hash (a.setState s.pindexNew .passed),
                    st.2.insertIfNew parent.nMin (toU64 value))
              else some (view, st.2)
          else some (view, st.2)

/-- The first part of a consultation's state change at a cycle end. -/
def CConsultation.nextState (env : Env) (view : CStateView) (pindexNew : CBlockIndex)
    (c : CConsultation) (oldState : Flags) : Option Flags :=
  if c.isExpired env view pindexNew then
    if oldState != .expired then some .expired else none
  else if c.isSupported env view then
    if oldState == .nil then some .supported
    else if oldState == .supported && c.canMoveInReflection env view then some .reflection
    else if oldState == .reflection && c.isReflectionOver env view pindexNew then some .accepted
    else none
  else none

def stepConsultation (s : StepContext) (mapConsensusToChange : Map Nat Nat) (view : CStateView)
    (hash : UInt256) : CStateView :=
  match view.getConsultation hash with
  | none => view
  | some c =>
    match s.env.blockOf c.txblockhash with
    | none => view
    | some pblockindex =>
      let bound := getConsensusParameter s.env view .consultationMaxVotingCycles + 1
      match s.pindexDelete with
      | some pindexDelete =>
        view.setConsultation hash (c.undoState s pindexDelete pblockindex bound)
      | none =>
        let oldState := c.getLastState s.env.mapBlockIndex
        let c := if oldState != .expired && oldState != .passed then
          { c with nVotingCycle := s.nVotingCycles pblockindex bound } else c
        if !s.isCycleEnd then view.setConsultation hash c
        else
          let c := match c.nextState s.env (view.setConsultation hash c) s.pindexNew oldState with
            | none => c
            | some state => c.setState s.pindexNew state
          let c := if c.isAboutConsensusParameter && mapConsensusToChange.contains c.nMin &&
              oldState == .accepted && c.getLastState s.env.mapBlockIndex != .expired then
            c.setState s.pindexNew .passed else c
          view.setConsultation hash c

/-! ## Restarting the counters after a whole scan -/

def resetPaymentRequest (s : StepContext) (mapSeen : List UInt256) (view : CStateView)
    (hash : UInt256) : CStateView :=
  match view.getPaymentRequest hash with
  | none => view
  | some r =>
    if !mapSeen.contains r.hash && r.canVote s.env view then
      view.setPaymentRequest hash { r with nVotesYes := 0, nVotesNo := 0 }
    else view

def resetProposal (s : StepContext) (mapSeen : List UInt256) (view : CStateView)
    (hash : UInt256) : CStateView :=
  match view.getProposal hash with
  | none => view
  | some p =>
    if !mapSeen.contains p.hash && p.canVote s.env then
      view.setProposal hash { p with nVotesYes := 0, nVotesNo := 0 }
    else view

/-- The view and `vClearAnswers`. -/
def resetConsultation (s : StepContext) (mapSeen mapSeenSupport : List UInt256)
    (st : CStateView × List UInt256) (hash : UInt256) : CStateView × List UInt256 :=
  match st.1.getConsultation hash with
  | none => st
  | some c =>
    let c := if c.canBeSupported s.env && !mapSeenSupport.contains c.hash then
      { c with nSupport := 0 } else c
    if c.getLastState s.env.mapBlockIndex == .accepted then
      let vClearAnswers := if c.isRange then st.2 else st.2 ++ [c.hash]
      let c := if (c.mapVotes.contains (toU64 VOTE_ABSTAIN) || c.isRange) &&
          !mapSeen.contains c.hash then { c with mapVotes := ∅ } else c
      (st.1.setConsultation hash c, vClearAnswers)
    else (st.1.setConsultation hash c, st.2)

/-- `parent` is the answer's parent in the map read before the state changes. -/
def resetAnswer (s : StepContext) (mapSeen mapSeenSupport vClearAnswers : List UInt256)
    (view : CStateView) (hash : UInt256) (parent : UInt256) : CStateView :=
  if mapSeen.contains hash then view
  else match view.getConsultationAnswer hash with
    | none => view
    | some a =>
      let a := if a.canBeSupported s.env view && !mapSeenSupport.contains a.hash then
        { a with nSupport := 0 } else a
      view.setConsultationAnswer hash
        (if vClearAnswers.contains parent then { a with nVotes := 0 } else a)

/-! ## The function -/

/-- The counts stored in the objects; returns the view, `mapSeen` and `mapSeenSupport`. -/
def tallyAll (s : StepContext) (fCFund fDAOConsultations : Bool) (c : VoteCache)
    (view : CStateView) : CStateView × List UInt256 × List UInt256 :=
  let st : Tally := (view, [])
  let st := if fCFund then c.mapCacheProposalsToUpdate.foldl (tallyProposal s) st else st
  let st := if fCFund then c.mapCachePaymentRequestToUpdate.foldl (tallyPaymentRequest s) st else st
  if fDAOConsultations then
    let sup := c.mapCacheSupportToUpdate.foldl (tallySupport s) (st.1, [])
    let con := c.mapCacheConsultationToUpdate.foldl (tallyConsultation s) ((sup.1, st.2), [])
    (con.1.1, con.1.2, sup.2)
  else (st.1, st.2, [])

/-- The number of excluded blocks stored in the objects that are being voted on. -/
def excludeAll (s : StepContext) (fCFund fDAOConsultations : Bool) (view : CStateView) :
    CStateView :=
  let view := if fCFund then
    let view' := view.paymentRequests.keys.foldl (excludePaymentRequest s) view
    view.proposals.keys.foldl (excludeProposal s) view' else view
  if fDAOConsultations then
    let view' := view.consultations.keys.foldl (excludeConsultation s) view
    view.answers.keys.foldl (excludeAnswer s) view'
  else view

/-- The state changes of payment requests, then of proposals. -/
def stepFund (s : StepContext) (view : CStateView) (fund : Fund) : CStateView × Fund :=
  let st := view.paymentRequests.keys.foldl (stepPaymentRequest s) (view, fund)
  view.proposals.keys.foldl (stepProposal s) st

/-- The state changes of answers, then of consultations; also returns
`mapConsensusToChange`. -/
def stepDAO (s : StepContext) (view : CStateView) : Option (CStateView × Map Nat Nat) :=
  (view.answers.keys.foldlM (stepAnswer s) (view, ∅)).map fun st =>
    (view.consultations.keys.foldl (stepConsultation s st.2) st.1, st.2)

/-- The counters of the objects that no scanned block voted for. -/
def resetAll (s : StepContext) (fCFund fDAOConsultations : Bool)
    (mapSeen mapSeenSupport : List UInt256) (view : CStateView) : CStateView :=
  let view := if fCFund then
    let view' := view.paymentRequests.keys.foldl (resetPaymentRequest s mapSeen) view
    view.proposals.keys.foldl (resetProposal s mapSeen) view' else view
  if fDAOConsultations then
    let st := view.consultations.keys.foldl (resetConsultation s mapSeen mapSeenSupport) (view, [])
    view.answers.foldl (fun v hash a =>
      resetAnswer s mapSeen mapSeenSupport st.2 v hash a.parent) st.1
  else view

/-- The parameters changed at this block. -/
def setParameters (height : Nat) (mapConsensusToChange : Map Nat Nat) (view : CStateView) :
    CStateView :=
  mapConsensusToChange.foldl (fun view pos value =>
    view.modifyConsensusParameter pos (·.set height value)) view

/-- `nBlocks`, the position of a block in its cycle, counted from 1. -/
def cyclePosition (nCycleLength height : Nat) : Nat := height % nCycleLength + 1

/-- The condition under which the whole cycle is scanned again. -/
def needsWholeScan (fUndo : Bool) (consensusStateHash : List Nat) (nBlocks : Nat)
    (c : VoteCache) : Bool :=
  fUndo || c.lastConsensusStateHash != some consensusStateHash || nBlocks == 1 || c.noCounts

/-- Everything `VoteStep` does to the view and the fund once the votes are counted. -/
def applyStep (s : StepContext) (fCFund fDAOConsultations : Bool) (c : VoteCache)
    (fund : Fund) (view : CStateView) : Option (CStateView × Fund) := do
  let (view, mapSeen, mapSeenSupport) := tallyAll s fCFund fDAOConsultations c view
  let view := excludeAll s fCFund fDAOConsultations view
  let (view, fund) := if fCFund then stepFund s view fund else (view, fund)
  let (view, mapConsensusToChange) ←
    if fDAOConsultations then stepDAO s view else some (view, ∅)
  let view := if s.fScanningWholeCycle then
    resetAll s fCFund fDAOConsultations mapSeen mapSeenSupport view else view
  return (setParameters s.pindexNew.nHeight mapConsensusToChange view, fund)

/-- Every payment request's block is known; the source dereferences it without a check. -/
def requestBlocksKnown (env : Env) (view : CStateView) : Bool :=
  view.paymentRequests.all fun _ r =>
    r.txblockhash == 0 || env.mapBlockIndex.contains r.txblockhash

/-- The part of `VoteStep` after `pindexNew` is fixed: `chain` starts with `pindexNew`. -/
def voteStepAt (env : Env) (votes : RecordedVotes) (chain : Chain)
    (pindexDelete : Option CBlockIndex) (fund : Fund) (view : CStateView) (c : VoteCache) :
    Option (CStateView × Fund × VoteCache) :=
  match chain with
  | [] => none
  | pindexNew :: pprev =>
    let nCycleLength := getConsensusParameter env view .votingCycleLength
    let fCFund := env.isActive .communityFund pprev
    let fDAOConsultations := env.isActive .consultations pprev
    if nCycleLength == 0 || (fCFund && !requestBlocksKnown env view) then none
    else
      let hash := getConsensusStateHash env view
      let nBlocks := cyclePosition nCycleLength pindexNew.nHeight
      let whole := needsWholeScan pindexDelete.isSome hash nBlocks c
      let c := if whole then
          scanBlocks view votes fCFund fDAOConsultations nBlocks chain (.cleared (some hash))
        else scanBlocks view votes fCFund fDAOConsultations 1 chain c
      let s : StepContext := ⟨env, pindexNew, pindexDelete, nCycleLength, whole, c.nCacheExclude⟩
      (applyStep s fCFund fDAOConsultations c fund view).map fun r => (r.1, r.2, c)

/-- `VoteStep(state, pindex, fUndo, view)`; `chain` starts with `pindex`. -/
def voteStep (env : Env) (votes : RecordedVotes) (chain : Chain) (fUndo : Bool) (fund : Fund)
    (view : CStateView) (c : VoteCache) : Option (CStateView × Fund × VoteCache) :=
  if fUndo then voteStepAt env votes chain.tail chain.head? fund view c
  else voteStepAt env votes chain none fund view c

end Electrum
