import Electrum.Dao.StepFund
import Electrum.Lib.MapSum

/-!
# The fund's books

The coins of the fund are free (`nCFSupply`), reserved for accepted proposals (`nCFLocked`) or
granted to payment requests.  The sums here say what the two numbers should be, from the states
of the objects; `SameBooks` relates views that cannot be told apart by them.

Main results:
* `SameBooks.sums` — the sums depend on the books alone
* `FundSound.of_sameBooks`, `FundSound.grant`, `FundSound.changeProposal` — what keeps the fund
  sound
-/

namespace Electrum

open CStateView Option

/-! ## Sums -/

/-- The request was granted: it is ACCEPTED or PAID. -/
def CPaymentRequest.isGranted (env : Env) (r : CPaymentRequest) : Bool :=
  r.getLastState env.mapBlockIndex == .accepted || r.getLastState env.mapBlockIndex == .paid

/-- Coins are reserved for the proposal: it is ACCEPTED or PENDING_VOTING_PREQ. -/
def CProposal.isFunded (env : Env) (p : CProposal) : Bool :=
  p.getLastState env.mapBlockIndex == .accepted ||
    p.getLastState env.mapBlockIndex == .pendingVotingPreq

/-- The amounts of the granted requests. -/
def granted (env : Env) (view : CStateView) : Int :=
  mapSum (fun r : CPaymentRequest => if r.isGranted env then r.nAmount else 0)
    view.paymentRequests

/-- The amounts of the granted requests of one proposal. -/
def claimed (env : Env) (view : CStateView) (proposalhash : UInt256) : Int :=
  mapSum (fun r : CPaymentRequest =>
    if r.isGranted env && r.proposalhash == proposalhash then r.nAmount else 0)
    view.paymentRequests

/-- What is available to the funded proposals. -/
def reserved (env : Env) (view : CStateView) : Int :=
  mapSum (fun p : CProposal => if p.isFunded env then p.getAvailable env view false else 0)
    view.proposals

/-- **GetAvailable.** -/
theorem CProposal.getAvailable_eq (env : Env) (view : CStateView) (p : CProposal) :
    p.getAvailable env view false = p.nAmount - claimed env view p.hash := by
  have hFold : ∀ (l : List (UInt256 × CPaymentRequest)) (initial : Int),
      l.foldl (fun initial it =>
        if p.countsAgainst env false it.2 then initial - it.2.nAmount else initial) initial =
      initial - (l.map fun it =>
        if it.2.isGranted env && it.2.proposalhash == p.hash then it.2.nAmount else 0).sum := by
    intro l
    induction l with
    | nil => simp
    | cons it rest ih =>
      intro initial
      have hCounts : p.countsAgainst env false it.2 =
          (it.2.isGranted env && it.2.proposalhash == p.hash) := by
        simp [countsAgainst, CPaymentRequest.isGranted, Bool.and_comm]
      rw [List.foldl_cons, ih, hCounts, List.map_cons, List.sum_cons]
      split <;> omega
  exact hFold view.paymentRequests.toList p.nAmount

/-! ## Books -/

/-- What a request puts into the books, once it is granted: its amount and its proposal. -/
def CPaymentRequest.book (env : Env) (r : CPaymentRequest) : Option (Int × UInt256) :=
  if r.isGranted env then some (r.nAmount, r.proposalhash) else none

/-- What a funded proposal puts into the books: its amount and its hash. -/
def CProposal.book (env : Env) (p : CProposal) : Option (Int × UInt256) :=
  if p.isFunded env then some (p.nAmount, p.hash) else none

/-- The views have the same books. -/
structure SameBooks (env : Env) (view view' : CStateView) : Prop where
  requests : ∀ hash, (view'.getPaymentRequest hash).bind (·.book env) =
    (view.getPaymentRequest hash).bind (·.book env)
  proposals : ∀ hash, (view'.getProposal hash).bind (·.book env) =
    (view.getProposal hash).bind (·.book env)

theorem SameBooks.trans {env : Env} {u v w : CStateView} (h : SameBooks env u v)
    (h' : SameBooks env v w) : SameBooks env u w :=
  ⟨fun hash => (h'.requests hash).trans (h.requests hash),
    fun hash => (h'.proposals hash).trans (h.proposals hash)⟩

theorem granted_contribution (env : Env) (view : CStateView) (hash : UInt256) :
    contribution (fun r : CPaymentRequest => if r.isGranted env then r.nAmount else 0)
      view.paymentRequests hash =
    ((view.getPaymentRequest hash).bind (·.book env)).elim 0 (·.1) := by
  unfold contribution getPaymentRequest CPaymentRequest.book
  cases view.paymentRequests[hash]? with
  | none => rfl
  | some r => cases hGranted : r.isGranted env <;> simp [hGranted]

theorem claimed_contribution (env : Env) (view : CStateView) (proposalhash hash : UInt256) :
    contribution (fun r : CPaymentRequest =>
        if r.isGranted env && r.proposalhash == proposalhash then r.nAmount else 0)
      view.paymentRequests hash =
    ((view.getPaymentRequest hash).bind (·.book env)).elim 0
      (fun b => if b.2 = proposalhash then b.1 else 0) := by
  unfold contribution getPaymentRequest CPaymentRequest.book
  cases view.paymentRequests[hash]? with
  | none => rfl
  | some r => cases hGranted : r.isGranted env <;> simp [hGranted]

theorem reserved_contribution (env : Env) (view : CStateView) (hash : UInt256) :
    contribution (fun p : CProposal => if p.isFunded env then p.getAvailable env view false else 0)
      view.proposals hash =
    ((view.getProposal hash).bind (·.book env)).elim 0 (fun b => b.1 - claimed env view b.2) := by
  unfold contribution getProposal CProposal.book
  cases view.proposals[hash]? with
  | none => rfl
  | some p => cases hFunded : p.isFunded env <;> simp [hFunded, CProposal.getAvailable_eq]

variable {view view' : CStateView}

/-- **Sums.** They depend on the books alone. -/
theorem SameBooks.sums {env : Env} (h : SameBooks env view view') :
    granted env view' = granted env view ∧
    (∀ hash, claimed env view' hash = claimed env view hash) ∧
    reserved env view' = reserved env view := by
  have hClaimed : ∀ hash, claimed env view' hash = claimed env view hash := by
    intro hash
    apply mapSum_congr
    intro k
    rw [claimed_contribution, claimed_contribution, h.requests k]
  refine ⟨?_, hClaimed, ?_⟩
  · apply mapSum_congr
    intro k
    rw [granted_contribution, granted_contribution, h.requests k]
  · apply mapSum_congr
    intro k
    rw [reserved_contribution, reserved_contribution, h.proposals k]
    simp only [hClaimed]

/-- Changing counters does not change the books. -/
theorem SameCore.sameBooks (h : SameCore view view') (env : Env) : SameBooks env view view' := by
  refine ⟨fun hash => ?_, fun hash => ?_⟩
  · have hCore : ∀ v : CStateView, (v.getPaymentRequest hash).bind (·.book env) =
        ((v.getPaymentRequest hash).map CPaymentRequest.core).bind (·.book env) := by
      intro v
      cases v.getPaymentRequest hash <;> rfl
    rw [hCore view', h.paymentRequests, ← hCore view]
  · have hCore : ∀ v : CStateView, (v.getProposal hash).bind (·.book env) =
        ((v.getProposal hash).map CProposal.core).bind (·.book env) := by
      intro v
      cases v.getProposal hash <;> rfl
    rw [hCore view', h.proposals, ← hCore view]

/-! ## One object changes -/

section Change

variable {env : Env} {view : CStateView} {hash : UInt256}

theorem CPaymentRequest.book_congr {r r' : CPaymentRequest} (hAmount : r'.nAmount = r.nAmount)
    (hProposal : r'.proposalhash = r.proposalhash) (hGranted : r'.isGranted env = r.isGranted env) :
    r'.book env = r.book env := by
  unfold book
  rw [hAmount, hProposal, hGranted]

/-- A request that is granted as before. -/
theorem SameBooks.setPaymentRequest {r r' : CPaymentRequest}
    (hr : view.getPaymentRequest hash = some r) (hNull : r'.isNull = false)
    (hBook : r'.book env = r.book env) :
    SameBooks env view (view.setPaymentRequest hash r') := by
  refine ⟨fun k => ?_, fun _ => rfl⟩
  rw [getPaymentRequest_set hNull]
  split
  case isTrue hEq =>
    rw [← hEq, hr]
    exact hBook
  case isFalse => rfl

section Grant

variable {r r' : CPaymentRequest} (hr : view.getPaymentRequest hash = some r)
  (hNull : r'.isNull = false) (hOld : r.isGranted env = false) (hNew : r'.isGranted env = true)
  (hAmount : r'.nAmount = r.nAmount)
include hr hNull hOld hNew hAmount

/-- A request is granted: the sum of the granted requests. -/
theorem granted_grant :
    granted env (view.setPaymentRequest hash r') = granted env view + r.nAmount := by
  refine (mapSum_change (k := hash) (fun k hk => ?_) (granted_contribution env view hash)
    (granted_contribution ..)).trans ?_
  · rw [granted_contribution, granted_contribution, getPaymentRequest_set hNull,
      if_neg (Ne.symm hk)]
  · rw [getPaymentRequest_set hNull, hr]
    simp [granted, CPaymentRequest.book, hOld, hNew, hAmount]

/-- A request is granted: what its proposal and the others are claimed for. -/
theorem claimed_grant (hProposal : r'.proposalhash = r.proposalhash) (proposalhash : UInt256) :
    claimed env (view.setPaymentRequest hash r') proposalhash =
      claimed env view proposalhash + if r.proposalhash = proposalhash then r.nAmount else 0 := by
  refine (mapSum_change (k := hash) (fun k hk => ?_) (claimed_contribution env view proposalhash hash)
    (claimed_contribution ..)).trans ?_
  · rw [claimed_contribution, claimed_contribution, getPaymentRequest_set hNull,
      if_neg (Ne.symm hk)]
  · rw [getPaymentRequest_set hNull, hr]
    simp [claimed, CPaymentRequest.book, hOld, hNew, hAmount, hProposal]

/-- A request of a funded proposal is granted: what is reserved. -/
theorem reserved_grant (hProposal : r'.proposalhash = r.proposalhash) {p : CProposal}
    (hp : view.getProposal r.proposalhash = some p) (hFunded : p.isFunded env = true)
    (hKeyed : ∀ hash p, view.getProposal hash = some p → p.hash = hash) :
    reserved env (view.setPaymentRequest hash r') = reserved env view - r.nAmount := by
  have hClaimed := claimed_grant hr hNull hOld hNew hAmount hProposal
  have hSame : ∀ k, (view.setPaymentRequest hash r').getProposal k = view.getProposal k :=
    fun _ => rfl
  refine (mapSum_change (k := r.proposalhash) (fun k hk => ?_)
    (reserved_contribution env view _) (reserved_contribution ..)).trans ?_
  · rw [reserved_contribution, reserved_contribution, hSame]
    cases hq : view.getProposal k with
    | none => rfl
    | some q =>
      -- the claims on another proposal stay
      have hOther : claimed env (view.setPaymentRequest hash r') q.hash =
          claimed env view q.hash := by
        rw [hClaimed, hKeyed k q hq, if_neg (Ne.symm hk), Int.add_zero]
      cases hq' : q.isFunded env <;> simp [CProposal.book, hq', hOther]
  · have hOwn := hClaimed p.hash
    rw [if_pos (hKeyed _ p hp).symm] at hOwn
    rw [hSame, hp]
    simp only [reserved, CProposal.book, hFunded, if_true, bind_some, elim_some, hOwn]
    omega

end Grant

/-- A proposal is funded, or no longer funded: what is reserved. -/
theorem reserved_fund {p p' : CProposal} (hp : view.getProposal hash = some p)
    (hNull : p'.isNull = false) (hAmount : p'.nAmount = p.nAmount) (hHash : p'.hash = p.hash) :
    reserved env (view.setProposal hash p') = reserved env view -
      (if p.isFunded env then p.getAvailable env view false else 0) +
      if p'.isFunded env then p.getAvailable env view false else 0 := by
  have hClaimed : ∀ k, claimed env (view.setProposal hash p') k = claimed env view k :=
    fun _ => rfl
  refine (mapSum_change (k := hash) (fun k hk => ?_) (reserved_contribution env view hash)
    (reserved_contribution ..)).trans ?_
  · rw [reserved_contribution, reserved_contribution, getProposal_set hNull, if_neg (Ne.symm hk)]
    simp only [hClaimed]
  · rw [getProposal_set hNull, hp, p.getAvailable_eq]
    cases hOld : p.isFunded env <;> cases hNew : p'.isFunded env <;>
      simp [reserved, CProposal.book, hOld, hNew, hAmount, hHash, hClaimed]

end Change

/-! ## The invariant -/

/-- The two numbers of the fund agree with the books, and no proposal is overdrawn. -/
@[mk_iff]
structure FundSound (env : Env) (view : CStateView) (fund : Fund) : Prop where
  locked : fund.nCFLocked = reserved env view
  supply : 0 ≤ fund.nCFSupply
  within : ∀ hash p, view.getProposal hash = some p → claimed env view p.hash ≤ p.nAmount
  keyed : ∀ hash p, view.getProposal hash = some p → p.hash = hash
  referred : ∀ hash r, view.getPaymentRequest hash = some r → r.isGranted env = true →
    (view.getProposal r.proposalhash).isSome = true

instance (env : Env) (view : CStateView) (fund : Fund) : Decidable (FundSound env view fund) :=
  decidable_of_iff _ (fundSound_iff env view fund).symm

/-- The proposals of the second view are those of the first with the same amounts, and new ones
under keys that were free. -/
structure KeepsProposals (view view' : CStateView) : Prop where
  kept : ∀ hash p, view.getProposal hash = some p → ∃ p', view'.getProposal hash = some p'
  back : ∀ hash p', view'.getProposal hash = some p' →
    (∃ p, view.getProposal hash = some p ∧ p'.hash = p.hash ∧ p'.nAmount = p.nAmount) ∨
      (view.getProposal hash = none ∧ p'.hash = hash ∧ 0 ≤ p'.nAmount)

theorem KeepsProposals.of_eq (h : view'.proposals = view.proposals) :
    KeepsProposals view view' := by
  have hSame : ∀ hash, view'.getProposal hash = view.getProposal hash := by
    intro hash
    rw [getProposal, h]
    rfl
  refine ⟨fun hash p hp => ⟨p, (hSame hash).trans hp⟩, fun hash p' hp' => .inl ?_⟩
  exact ⟨p', (hSame hash).symm.trans hp', rfl, rfl⟩

theorem KeepsProposals.setProposal {hash : UInt256} {p p' : CProposal}
    (hp : view.getProposal hash = some p) (hNull : p'.isNull = false)
    (hAmount : p'.nAmount = p.nAmount) (hHash : p'.hash = p.hash) :
    KeepsProposals view (view.setProposal hash p') := by
  refine ⟨fun k q hq => ?_, fun k q' hq' => .inl ?_⟩
  · rw [getProposal_set hNull]
    split
    · exact ⟨p', rfl⟩
    · exact ⟨q, hq⟩
  · rw [getProposal_set hNull] at hq'
    split at hq'
    case isTrue hEq =>
      cases hq'
      exact ⟨p, hEq ▸ hp, hHash, hAmount⟩
    case isFalse => exact ⟨q', hq', rfl, rfl⟩

theorem SameCore.keepsProposals (h : SameCore view view') : KeepsProposals view view' := by
  refine ⟨fun hash p hp => ?_, fun hash p' hp' => .inl ?_⟩
  · obtain ⟨p', hp', -⟩ := Map.core_of_some (h.proposals hash).symm hp
    exact ⟨p', hp'⟩
  · obtain ⟨p, hp, hCore⟩ := Map.core_of_some (h.proposals hash) hp'
    rw [CProposal.eq_of_core hCore]
    exact ⟨p, hp, rfl, rfl⟩

namespace FundSound

variable {env : Env} {view view' : CStateView} {fund fund' : Fund} (h : FundSound env view fund)
include h

variable {hash : UInt256} {p : CProposal}

theorem available_nonneg (hp : view.getProposal hash = some p) :
    0 ≤ p.getAvailable env view false := by
  rw [CProposal.getAvailable_eq]
  have hWithin := h.within hash p hp
  omega

/-- What is reserved is not negative. -/
theorem locked_nonneg : 0 ≤ fund.nCFLocked := by
  rw [h.locked]
  apply mapSum_nonneg
  intro hash p hp
  split
  · exact h.available_nonneg hp
  · exact Int.le_refl 0

/-- Nothing is claimed from a proposal that does not exist. -/
theorem claimed_eq_zero (hNone : view.getProposal hash = none) : claimed env view hash = 0 := by
  apply mapSum_eq_zero
  intro k r hr
  apply if_neg
  rw [Bool.and_eq_true, beq_iff_eq]
  rintro ⟨hGranted, hProposal⟩
  have hSome := h.referred k r hr hGranted
  rw [hProposal, hNone] at hSome
  cases hSome

theorem keyed_of_keeps (hKeeps : KeepsProposals view view') :
    ∀ hash p, view'.getProposal hash = some p → p.hash = hash := by
  intro hash p' hp'
  rcases hKeeps.back hash p' hp' with ⟨p, hp, hHash, -⟩ | ⟨-, hHash, -⟩
  · exact hHash.trans (h.keyed hash p hp)
  · exact hHash

/-- **No change.** With the same books, the fund stays sound. -/
theorem of_sameBooks (hBooks : SameBooks env view view') (hKeeps : KeepsProposals view view')
    (hLocked : fund'.nCFLocked = fund.nCFLocked) (hSupply : fund.nCFSupply ≤ fund'.nCFSupply) :
    FundSound env view' fund' := by
  obtain ⟨-, hClaimed, hReserved⟩ := hBooks.sums
  refine ⟨?_, h.supply.trans hSupply, ?_, h.keyed_of_keeps hKeeps, ?_⟩
  · rw [hLocked, hReserved]
    exact h.locked
  · intro hash p' hp'
    rw [hClaimed]
    rcases hKeeps.back hash p' hp' with ⟨p, hp, hHash, hAmount⟩ | ⟨hNone, hHash, hAmount⟩
    · rw [hHash, hAmount]
      exact h.within hash p hp
    · rw [hHash, h.claimed_eq_zero hNone]
      exact hAmount
  · intro hash r' hr' hGranted
    -- the same request was granted before
    have hBook := hBooks.requests hash
    rw [hr', bind_some, CPaymentRequest.book, if_pos hGranted, eq_comm, bind_eq_some_iff] at hBook
    obtain ⟨r, hr, hr''⟩ := hBook
    unfold CPaymentRequest.book at hr''
    split at hr''
    case isFalse => cases hr''
    case isTrue hOld =>
      have hProposal : r.proposalhash = r'.proposalhash :=
        congrArg Prod.snd (some.inj hr'')
      obtain ⟨p, hp⟩ := isSome_iff_exists.mp (h.referred hash r hr hOld)
      obtain ⟨p', hp'⟩ := hKeeps.kept _ p hp
      rw [← hProposal, hp']
      rfl

/-- **Grant.** A request of a funded proposal is granted from what is reserved for it. -/
theorem grant {r r' : CPaymentRequest}
    (hr : view.getPaymentRequest hash = some r) (hNull : r'.isNull = false)
    (hOld : r.isGranted env = false) (hNew : r'.isGranted env = true)
    (hAmount : r'.nAmount = r.nAmount) (hProposal : r'.proposalhash = r.proposalhash)
    (hp : view.getProposal r.proposalhash = some p)
    (hFunded : p.isFunded env = true) (hAvailable : r.nAmount ≤ p.getAvailable env view false) :
    FundSound env (view.setPaymentRequest hash r')
      { fund with nCFLocked := fund.nCFLocked - r.nAmount } := by
  have hClaimed := claimed_grant hr hNull hOld hNew hAmount hProposal
  refine ⟨?_, h.supply, ?_, h.keyed, ?_⟩
  · rw [reserved_grant hr hNull hOld hNew hAmount hProposal hp hFunded h.keyed, ← h.locked]
  · intro k q hq
    have hBefore := h.within k q hq
    rw [hClaimed]
    split
    case isFalse => omega
    case isTrue hEq =>
      have hSame : view.getProposal r.proposalhash = some q := by
        rw [hEq, h.keyed k q hq]
        exact hq
      rw [hp] at hSame
      cases hSame
      rw [p.getAvailable_eq] at hAvailable
      omega
  · intro k q hq hGranted
    rw [getPaymentRequest_set hNull] at hq
    split at hq
    case isTrue =>
      cases hq
      show (view.getProposal r'.proposalhash).isSome = true
      rw [hProposal, hp]
      rfl
    case isFalse => exact h.referred k q hq hGranted

/-- **Funding.** A proposal is funded or no longer funded, and the fund follows. -/
theorem changeProposal {p' : CProposal} (hp : view.getProposal hash = some p)
    (hNull : p'.isNull = false) (hAmount : p'.nAmount = p.nAmount) (hHash : p'.hash = p.hash)
    (hSupply : 0 ≤ fund'.nCFSupply) (hLocked : fund'.nCFLocked = fund.nCFLocked -
      (if p.isFunded env then p.getAvailable env view false else 0) +
      if p'.isFunded env then p.getAvailable env view false else 0) :
    FundSound env (view.setProposal hash p') fund' := by
  have hKeeps := KeepsProposals.setProposal hp hNull hAmount hHash
  refine ⟨?_, hSupply, ?_, h.keyed_of_keeps hKeeps, ?_⟩
  · rw [hLocked, reserved_fund hp hNull hAmount hHash, h.locked]
  · intro k q' hq'
    show claimed env view q'.hash ≤ q'.nAmount
    rcases hKeeps.back k q' hq' with ⟨q, hq, hHash', hAmount'⟩ | ⟨hNone, hHash', hAmount'⟩
    · rw [hHash', hAmount']
      exact h.within k q hq
    · rw [hHash', h.claimed_eq_zero hNone]
      exact hAmount'
  · intro k r hr hGranted
    obtain ⟨q, hq⟩ := isSome_iff_exists.mp (h.referred k r hr hGranted)
    obtain ⟨q', hq'⟩ := hKeeps.kept _ q hq
    rw [hq']
    rfl

end FundSound

end Electrum
