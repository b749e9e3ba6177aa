import Electrum.Dao.TallyStep

/-!
# The tallies of proposals and payment requests through one call

How a call of `VoteStep` that connects a block treats the three vote counters of a proposal or
payment request that can be voted on.  The counters are overwritten by the count of the cycle
if a block voted on the object.  Otherwise they stay, and are restarted only after the state
changes, only by a scan of the whole cycle, and without the abstentions.

Main results:
* `resetAll_fund` — the restart of the counters
* `Tallied.exact_iff` — when the counters are exact
* `StepRun.proposal_tallied`, `StepRun.request_tallied` — the counters through a call
-/

namespace Electrum

open Option

/-! ## The phases that keep the tallies -/

/-- The three vote counters. -/
def CProposal.tally (p : CProposal) : VoteCount := ⟨p.nVotesYes, p.nVotesNo, p.nVotesAbs⟩

def CPaymentRequest.tally (r : CPaymentRequest) : VoteCount :=
  ⟨r.nVotesYes, r.nVotesNo, r.nVotesAbs⟩

/-- The objects of the views have the same tallies. -/
structure SameTallies (view view' : CStateView) : Prop where
  proposals : ∀ hash, (view'.getProposal hash).map CProposal.tally =
    (view.getProposal hash).map CProposal.tally
  requests : ∀ hash, (view'.getPaymentRequest hash).map CPaymentRequest.tally =
    (view.getPaymentRequest hash).map CPaymentRequest.tally

namespace SameTallies

theorem refl (view : CStateView) : SameTallies view view := ⟨fun _ => rfl, fun _ => rfl⟩

theorem trans {u v w : CStateView} (h : SameTallies u v) (h' : SameTallies v w) : SameTallies u w :=
  ⟨fun hash => (h'.proposals hash).trans (h.proposals hash),
    fun hash => (h'.requests hash).trans (h.requests hash)⟩

variable {view : CStateView}

theorem of_sameFund {view' : CStateView} (h : SameFund view view') : SameTallies view view' := by
  refine ⟨fun hash => ?_, fun hash => ?_⟩
  · rw [CStateView.getProposal, h.proposals]
    rfl
  · rw [CStateView.getPaymentRequest, h.requests]
    rfl

end SameTallies

variable {s : StepContext} {view view' : CStateView} {counted after : VoteCount}
  {vote : CBlockIndex → Option Int}

/-- Storing the number of excluded blocks keeps the tallies. -/
theorem Write.sameTallies (hSolid : Solid view)
    (h : Write (Edit.excludes s) view view') : SameTallies view view' := by
  cases h with
  | @proposal hash p p' hp hEdit =>
    obtain ⟨-, rfl⟩ := hEdit
    exact ⟨Map.map_getElem?_setUnless hp rfl
      (CProposal.notNull_of_core (hSolid.proposals hash p hp)), fun _ => rfl⟩
  | @paymentRequest hash r r' hr hEdit =>
    obtain ⟨-, rfl⟩ := hEdit
    exact ⟨fun _ => rfl, Map.map_getElem?_setUnless hr rfl
      (CPaymentRequest.notNull_of_core (hSolid.paymentRequests hash r hr))⟩
  | consultation => exact .of_sameFund ⟨rfl, rfl⟩
  | answer => exact .of_sameFund ⟨rfl, rfl⟩

section Kept

variable {s : StepContext} {view : CStateView} (hSolid : Solid view)
include hSolid

theorem excludeAll_sameTallies (fCFund fDAOConsultations : Bool) :
    SameTallies view (excludeAll s fCFund fDAOConsultations view) :=
  excludeAll_writes.lift SameTallies.refl SameTallies.trans
    (fun hSolid h => (h.mono fun _ hEdit => hEdit.counts).solid hSolid) Write.sameTallies hSolid

variable (hs : s.pindexDelete = none) (fund : Fund)
include hs

/-- A turn keeps the tally, the name and, unless a cycle ends, the standing of a request. -/
theorem stepFund_kept_request (hash : UInt256) :
    ((stepFund s view fund).1.getPaymentRequest hash).map (fun r => (r.tally, r.hash)) =
      (view.getPaymentRequest hash).map (fun r => (r.tally, r.hash)) ∧
    (s.isCycleEnd = false →
      ((stepFund s view fund).1.getPaymentRequest hash).map (·.standing s.env) =
        (view.getPaymentRequest hash).map (·.standing s.env)) := by
  cases hr : view.getPaymentRequest hash with
  | none =>
    rw [(stepFund_none hs hSolid fund hash).1 hr]
    exact ⟨rfl, fun _ => rfl⟩
  | some r =>
    obtain ⟨hLoop, hTurns⟩ := stepRequests_spec hs hSolid fund
    obtain ⟨mid, r', fund', -, -, hTurn, hEnd⟩ := (hTurns hash).2 r hr
    have hGet : (stepFund s view fund).1.getPaymentRequest hash = some r' := by
      rw [stepFund_eq hs hSolid, (stepProposals_spec hs hLoop.solid _).1.frame]
      exact hEnd
    rw [hGet]
    refine ⟨congrArg some ?_, fun hNotEnd => congrArg some ?_⟩
    · rw [hTurn.kept]
      rfl
    · cases hTurn with
      | skip => rfl
      | stay pblockindex =>
        rw [CPaymentRequest.recount_eq]
        rfl
      | move _ hCycle _ =>
        rw [hNotEnd] at hCycle
        cases hCycle

/-- The loops keep the tally, and without a cycle end the state. -/
theorem stepFund_kept_proposal (hash : UInt256) :
    ((stepFund s view fund).1.getProposal hash).map (fun p => (p.tally, p.hash)) =
      (view.getProposal hash).map (fun p => (p.tally, p.hash)) ∧
    (s.isCycleEnd = false → ((stepFund s view fund).1.getProposal hash).map (·.standing s.env) =
        (view.getProposal hash).map (·.standing s.env)) := by
  cases hp : view.getProposal hash with
  | none =>
    rw [(stepFund_none hs hSolid fund hash).2 hp]
    exact ⟨rfl, fun _ => rfl⟩
  | some p =>
    obtain ⟨hLoop, -⟩ := stepRequests_spec hs hSolid fund
    have hp' : (stepRequests s view fund).1.getProposal hash = some p := by
      rw [hLoop.frame]
      exact hp
    obtain ⟨-, hTurns⟩ := stepProposals_spec hs hLoop.solid (stepRequests s view fund).2
    obtain ⟨mid, p', fund', -, -, hTurn, hEnd⟩ := (hTurns hash).2 p hp'
    rw [stepFund_eq hs hSolid, hEnd]
    refine ⟨congrArg some ?_, fun hNotEnd => congrArg some ?_⟩
    · rw [hTurn.kept]
      rfl
    · cases hTurn with
      | skip => rfl
      | stay pblockindex =>
        rw [CProposal.recount_eq]
        rfl
      | move hCycle _ =>
        rw [hNotEnd] at hCycle
        cases hCycle

end Kept

/-! ## Restarting the counters -/

/-- The counters are restarted, but for the abstentions. -/
def VoteCount.restart (n : VoteCount) : VoteCount := ⟨0, 0, n.abs⟩

section Restart

variable (s : StepContext) (mapSeen : List UInt256)

/-- The request with its counters restarted, if no block of the cycle voted on it. -/
def CPaymentRequest.restarted (env : Env) (view : CStateView) (mapSeen : List UInt256)
    (r : CPaymentRequest) : CPaymentRequest :=
  if !mapSeen.contains r.hash && r.canVote env view then { r with nVotesYes := 0, nVotesNo := 0 }
  else r

def CProposal.restarted (env : Env) (mapSeen : List UInt256) (p : CProposal) : CProposal :=
  if !mapSeen.contains p.hash && p.canVote env then { p with nVotesYes := 0, nVotesNo := 0 }
  else p

theorem CPaymentRequest.restarted_core (env : Env) (view : CStateView) (r : CPaymentRequest) :
    (r.restarted env view mapSeen).core = r.core := by
  unfold restarted
  split <;> rfl

theorem CProposal.restarted_core (env : Env) (p : CProposal) :
    (p.restarted env mapSeen).core = p.core := by
  unfold restarted
  split <;> rfl

theorem CPaymentRequest.restarted_tally (env : Env) (view : CStateView) (r : CPaymentRequest) :
    (r.restarted env view mapSeen).tally =
      if r.hash ∉ mapSeen ∧ r.canVote env view = true then r.tally.restart else r.tally := by
  unfold restarted
  by_cases hSeen : r.hash ∈ mapSeen <;> cases hVote : r.canVote env view <;>
    simp [hSeen, tally, VoteCount.restart]

theorem CProposal.restarted_tally (env : Env) (p : CProposal) : (p.restarted env mapSeen).tally =
      if p.hash ∉ mapSeen ∧ p.canVote env = true then p.tally.restart else p.tally := by
  unfold restarted
  by_cases hSeen : p.hash ∈ mapSeen <;> cases hVote : p.canVote env <;>
    simp [hSeen, tally, VoteCount.restart]

variable {view : CStateView}

/-- The reset of the payment requests. -/
theorem resetRequests_spec (hSolid : Solid view) :
    let view' := view.paymentRequests.keys.foldl (resetPaymentRequest s mapSeen) view
    (SameCore view view' ∧ view' = { view with paymentRequests := view'.paymentRequests }) ∧
    ∀ hash r, view.getPaymentRequest hash = some r →
      view'.getPaymentRequest hash = some (r.restarted s.env view mapSeen) := by
  obtain ⟨hLoop, hEach⟩ := requestTable.foldl_write
    (fun k r => some r.core = (view.getPaymentRequest k).map CPaymentRequest.core ∧
      r.core.isNull = false) (f := resetPaymentRequest s mapSeen)
    (fun h => CPaymentRequest.notNull_of_core h.2) (CPaymentRequest.restarted s.env view mapSeen)
    (fun h => by
      rw [CPaymentRequest.restarted_core]
      exact h)
    (fun v hash hr => by
      unfold resetPaymentRequest
      rw [show v.getPaymentRequest hash = none from hr])
    (fun v hash r hv hr => by
      -- the loop keeps what a vote on the request depends on
      have hVote : r.canVote s.env v = r.canVote s.env view :=
        (SameStanding.of_sameCore s.env (.of_requests hv fun _ _ h => h.1)).canVote rfl
      unfold resetPaymentRequest CPaymentRequest.restarted
      rw [show v.getPaymentRequest hash = some r from hr]
      dsimp only
      rw [hVote]
      split
      · rfl
      · exact (Table.set_self hr (CPaymentRequest.notNull_of_core (hv.good hash r hr).2)).symm)
    (Map.nodup_keys view.paymentRequests) (Map.mem_keys_iff view.paymentRequests)
    (fun hash r hr => ⟨(congrArg (Option.map _) hr).symm, hSolid.paymentRequests hash r hr⟩)
  refine ⟨⟨.of_requests hLoop fun _ _ h => h.1, hLoop.frame⟩, fun hash r hr => (hEach hash).trans ?_⟩
  rw [show requestTable.get view hash = some r from hr]
  rfl

/-- The reset of the proposals. -/
theorem resetProposals_spec (hSolid : Solid view) (keys : List UInt256)
    (hNodup : keys.Nodup) (hKeys : ∀ hash, hash ∈ keys ↔ (view.getProposal hash).isSome = true) :
    let view' := keys.foldl (resetProposal s mapSeen) view
    view' = { view with proposals := view'.proposals } ∧
    ∀ hash p, view.getProposal hash = some p →
      view'.getProposal hash = some (p.restarted s.env mapSeen) := by
  obtain ⟨hLoop, hEach⟩ := proposalTable.foldl_write (fun _ p => p.core.isNull = false)
    (f := resetProposal s mapSeen) CProposal.notNull_of_core (CProposal.restarted s.env mapSeen)
    (fun h => by
      rw [CProposal.restarted_core]
      exact h)
    (fun v hash hp => by
      unfold resetProposal
      rw [show v.getProposal hash = none from hp])
    (fun v hash p hv hp => by
      unfold resetProposal CProposal.restarted
      rw [show v.getProposal hash = some p from hp]
      dsimp only
      split
      · rfl
      · exact (Table.set_self hp (CProposal.notNull_of_core (hv.good hash p hp))).symm)
    hNodup hKeys hSolid.proposals
  refine ⟨hLoop.frame, fun hash p hp => (hEach hash).trans ?_⟩
  rw [show proposalTable.get view hash = some p from hp]
  rfl

theorem resetConsultation_sameFund (mapSeenSupport : List UInt256)
    (st : CStateView × List UInt256) (hash : UInt256) :
    SameFund st.1 (resetConsultation s mapSeen mapSeenSupport st hash).1 := by
  dsimp only [resetConsultation]
  repeat' split
  all_goals exact ⟨rfl, rfl⟩

theorem resetAnswer_sameFund (mapSeenSupport vClearAnswers : List UInt256) (view : CStateView)
    (hash parent : UInt256) :
    SameFund view (resetAnswer s mapSeen mapSeenSupport vClearAnswers view hash parent) := by
  dsimp only [resetAnswer]
  repeat' split
  all_goals exact ⟨rfl, rfl⟩

/-- The loops over consultations and answers keep the fund's objects. -/
theorem resetDAO_sameFund (mapSeenSupport : List UInt256) (view : CStateView) :
    SameFund view (view.answers.foldl (fun v hash a => resetAnswer s mapSeen mapSeenSupport
      (view.consultations.keys.foldl (resetConsultation s mapSeen mapSeenSupport) (view, [])).2
        v hash a.parent)
      (view.consultations.keys.foldl (resetConsultation s mapSeen mapSeenSupport) (view, [])).1) := by
  have hConsultations := foldl_invariant (f := resetConsultation s mapSeen mapSeenSupport)
    (fun _ (st : CStateView × List UInt256) => SameFund view st.1) view.consultations.keys
    (b := (view, [])) ⟨rfl, rfl⟩
    (fun done hash rest st _ hP =>
      hP.trans (resetConsultation_sameFund s mapSeen mapSeenSupport st hash))
  generalize view.consultations.keys.foldl (resetConsultation s mapSeen mapSeenSupport)
    (view, []) = st at hConsultations ⊢
  rw [Std.ExtTreeMap.foldl_eq_foldl_toList]
  refine foldl_invariant (fun _ v => SameFund view v) view.answers.toList hConsultations ?_
  intro done it rest v _ hP
  exact hP.trans (resetAnswer_sameFund s mapSeen mapSeenSupport st.2 v it.1 it.2.parent)

/-- **Restarting.** -/
theorem resetAll_fund (hSolid : Solid view) (fDAOConsultations : Bool)
    (mapSeenSupport : List UInt256) :
    let view' := resetAll s true fDAOConsultations mapSeen mapSeenSupport view
    (∀ hash p, view.getProposal hash = some p →
      view'.getProposal hash = some (p.restarted s.env mapSeen)) ∧
    ∀ hash r, view.getPaymentRequest hash = some r →
      view'.getPaymentRequest hash = some (r.restarted s.env view mapSeen) := by
  intro view'
  obtain ⟨⟨hSame, hFrame⟩, hRequests⟩ := resetRequests_spec s mapSeen hSolid
  generalize hv : view.paymentRequests.keys.foldl (resetPaymentRequest s mapSeen) view = v
    at hSame hFrame hRequests
  have hSameProposals : ∀ hash, v.getProposal hash = view.getProposal hash := by
    intro hash
    rw [hFrame]
    rfl
  obtain ⟨hFrame', hProposals⟩ := resetProposals_spec s mapSeen
    (hSame.solid hSolid) view.proposals.keys (Map.nodup_keys _) (fun hash => by
      rw [hSameProposals, Map.mem_keys_iff]
      rfl)
  generalize hw : view.proposals.keys.foldl (resetProposal s mapSeen) v = w
    at hFrame' hProposals
  -- the later loops are about consultations and answers
  have hLast : SameFund w view' := by
    subst hw hv
    cases fDAOConsultations with
    | false => exact ⟨rfl, rfl⟩
    | true => exact resetDAO_sameFund s mapSeen mapSeenSupport _
  refine ⟨fun hash p hp => ?_, fun hash r hr => ?_⟩
  · have hGet : view'.getProposal hash = w.getProposal hash := by
      rw [CStateView.getProposal, hLast.proposals]
      rfl
    rw [hGet]
    exact hProposals hash p ((hSameProposals hash).trans hp)
  · have hGet : view'.getPaymentRequest hash = v.getPaymentRequest hash := by
      rw [CStateView.getPaymentRequest, hLast.requests, hFrame']
      rfl
    rw [hGet]
    exact hRequests hash r hr

end Restart

/-! ## The tallies through a call -/

/-- What a call makes of the counters of an object: `count` is the count of the cycle, if a
block voted on the object, and `counted` are the counters that the state changes read. -/
structure Tallied (count : Option VoteCount) (fScanningWholeCycle isCycleEnd : Bool)
    (before counted after : VoteCount) : Prop where
  counted : counted = count.getD before
  seen : ∀ n, count = some n → after = n
  unseen : count = none → after = before ∨ after = before.restart
  kept : count = none → fScanningWholeCycle = false → after = before
  restarted : count = none → fScanningWholeCycle = true → isCycleEnd = false →
    after = before.restart

variable {count : Option VoteCount} {fScanningWholeCycle isCycleEnd : Bool} {before : VoteCount}
  {blocks : Chain}

/-- The counters after the call are those that the state changes read, restarted if the whole
cycle was scanned without a vote on the object and the object can still be voted on. -/
theorem Tallied.of_phases (votable : Prop) [Decidable votable]
    (hCounted : counted = count.getD before)
    (hAfter : after = if fScanningWholeCycle = true ∧ count.isSome = false ∧ votable then
      counted.restart else counted) (hVotable : isCycleEnd = false → votable) :
    Tallied count fScanningWholeCycle isCycleEnd before counted after where
  counted := hCounted
  seen n hn := by
    subst hn
    rw [hAfter, if_neg (by simp), hCounted]
    rfl
  unseen hn := by
    subst hn
    rw [hAfter, hCounted]
    split
    · exact .inr rfl
    · exact .inl rfl
  kept hn hPart := by
    subst hn hPart
    rw [hAfter, hCounted]
    rfl
  restarted hn hWhole hNotEnd := by
    subst hn
    rw [hAfter, if_pos ⟨hWhole, rfl, hVotable hNotEnd⟩, hCounted]
    rfl

/-- **Exact counters.** The counters are those of the cycle, after the call and when a decision
reads them, exactly when an object that no block voted on brings no stale ones. -/
theorem Tallied.exact_iff (h : Tallied count fScanningWholeCycle isCycleEnd before counted after) :
    (after = count.getD .zero ∧ (isCycleEnd = true → counted = count.getD .zero)) ↔
    (count = none → before.abs = 0 ∧
      (isCycleEnd = true ∨ fScanningWholeCycle = false → before.yes = 0 ∧ before.no = 0)) := by
  cases count with
  | some n =>
    have hAfter : after = n := h.seen n rfl
    have hCounted : counted = n := h.counted
    simp [hAfter, hCounted]
  | none =>
    have hCounted : counted = before := h.counted
    obtain ⟨yes, no, abs⟩ := before
    simp only [forall_const, getD_none, VoteCount.zero, hCounted, VoteCount.mk.injEq]
    constructor
    · rintro ⟨hAfter, hEnd⟩
      have hAbs : abs = 0 := by
        rcases h.unseen rfl with hKept | hRestart
        · rw [hKept] at hAfter
          exact (VoteCount.mk.inj hAfter).2.2
        · rw [hRestart] at hAfter
          exact (VoteCount.mk.inj hAfter).2.2
      refine ⟨hAbs, ?_⟩
      rintro (hCycle | hPart)
      · exact ⟨(hEnd hCycle).1, (hEnd hCycle).2.1⟩
      · rw [h.kept rfl hPart] at hAfter
        exact ⟨(VoteCount.mk.inj hAfter).1, (VoteCount.mk.inj hAfter).2.1⟩
    · rintro ⟨rfl, hStale⟩
      refine ⟨?_, fun hCycle => ⟨(hStale (.inl hCycle)).1, (hStale (.inl hCycle)).2, rfl⟩⟩
      by_cases hZero : isCycleEnd = true ∨ fScanningWholeCycle = false
      · obtain ⟨rfl, rfl⟩ := hStale hZero
        rcases h.unseen rfl with hKept | hRestart
        · exact hKept
        · exact hRestart
      · rw [not_or, Bool.not_eq_true, Bool.not_eq_false] at hZero
        exact h.restarted rfl hZero.2 hZero.1

/-- One object through the phases of a call: counted, changed, and restarted if need be. -/
theorem Tallied.of_object {α : Type} {tally : α → VoteCount} {name : α → UInt256}
    {o w o' : Option α} (hash : UInt256) (votable : α → Bool)
    (hCounted : o.map tally = some (count.getD before)) (hName : ∀ q, o = some q → name q = hash)
    (hChanged : w.map (fun a => (tally a, name a)) = o.map (fun a => (tally a, name a)))
    (hAfter : ∀ a, w = some a → name a = hash → ∃ q', o' = some q' ∧ tally q' =
      if fScanningWholeCycle = true ∧ count.isSome = false ∧ votable a = true then
        (tally a).restart else tally a)
    (hVotable : ∀ a, w = some a → isCycleEnd = false → votable a = true) :
    ∃ q q', o = some q ∧ o' = some q' ∧
      Tallied count fScanningWholeCycle isCycleEnd before (tally q) (tally q') := by
  obtain ⟨q, rfl, hqTally⟩ := map_eq_some_iff.mp hCounted
  obtain ⟨a, rfl, hSame⟩ := map_eq_some_iff.mp hChanged
  obtain ⟨haTally, haName⟩ := Prod.mk.inj hSame
  obtain ⟨q', rfl, hqAfter⟩ := hAfter a rfl (haName.trans (hName q rfl))
  rw [haTally] at hqAfter
  exact ⟨q, q', rfl, rfl, .of_phases _ hqTally hqAfter (hVotable a rfl)⟩

namespace StepRun

variable {s : StepContext} {fDAOConsultations : Bool} {c : VoteCache} {fund fund' : Fund}
  {view view' : CStateView} (run : StepRun s true fDAOConsultations c fund view fund' view')
  (hs : s.pindexDelete = none) (hSolid : Solid view) (hKeyed : FundKeyed view)
  (hName : OneName view)

include hs hSolid

/-- Unless a cycle ends, the objects keep their standing up to the restart. -/
theorem changed_standing (hNotEnd : s.isCycleEnd = false) :
    SameStanding s.env view run.changed := by
  have hCounted := run.counted_countsOnly hs hSolid
  have hDecided : run.decided = (stepFund s run.counted fund).1 := congrArg Prod.fst run.decided_eq
  have hChanged := (run.changed_frame hs hSolid).1
  refine (SameStanding.of_sameCore s.env hCounted.toSameCore).trans ⟨fun hash => ?_, fun hash => ?_⟩
  · rw [hChanged, hDecided]
    exact (stepFund_kept_proposal (hCounted.toSameCore.solid hSolid) hs fund hash).2 hNotEnd
  · rw [hChanged, hDecided]
    exact (stepFund_kept_request (hCounted.toSameCore.solid hSolid) hs fund hash).2 hNotEnd

/-- The state changes keep the tallies and the names. -/
theorem changed_kept (hash : UInt256) :
    (run.changed.getProposal hash).map (fun p => (p.tally, p.hash)) =
      (run.counted.getProposal hash).map (fun p => (p.tally, p.hash)) ∧
    (run.changed.getPaymentRequest hash).map (fun r => (r.tally, r.hash)) =
      (run.counted.getPaymentRequest hash).map (fun r => (r.tally, r.hash)) := by
  have hCounted := run.counted_solid hs hSolid
  have hDecided : run.decided = (stepFund s run.counted fund).1 := congrArg Prod.fst run.decided_eq
  rw [(run.changed_frame hs hSolid).1, hDecided]
  exact ⟨(stepFund_kept_proposal hCounted hs fund hash).1,
    (stepFund_kept_request hCounted hs fund hash).1⟩

include hKeyed hName

variable {hash : UInt256}

/-- **Proposals.** -/
theorem proposal_tallied {p : CProposal} (hp : view.getProposal hash = some p)
    (hCount : p.isCounted s.env = true) :
    ∃ q q', run.counted.getProposal hash = some q ∧ view'.getProposal hash = some q' ∧
      Tallied c.mapCacheProposalsToUpdate[hash]? s.fScanningWholeCycle s.isCycleEnd p.tally
        q.tally q'.tally := by
  obtain ⟨hTally, hSeen⟩ :=
    (tallyAll_fund hs hSolid hKeyed hName fDAOConsultations c).1 hash p hp hCount
  have hTallied : SameCore view (tallyAll s true fDAOConsultations c view).1 :=
    (tallyAll_countsOnly hs hSolid).toSameCore
  have hFinal : view'.getProposal hash = run.restarted.getProposal hash :=
    congrArg (·.getProposal hash) run.result_frame
  refine Tallied.of_object hash (·.canVote s.env) ?_ (fun q hq => ?_)
    (run.changed_kept hs hSolid hash).1 (fun w hw hwHash => ?_) (fun w hw hNotEnd => ?_)
  · rw [run.counted_eq, (excludeAll_sameTallies (hTallied.solid hSolid) _ _).proposals, hTally]
    cases c.mapCacheProposalsToUpdate[hash]? <;> rfl
  · obtain ⟨p', hp', hCore⟩ :=
      Map.core_of_some ((run.counted_countsOnly hs hSolid).proposals hash) hq
    exact (congrArg CProposal.hash hCore).trans (hKeyed.proposals hash p' hp')
  · rw [hFinal, run.restarted_eq]
    split
    case isFalse hPart => exact ⟨w, hw, by rw [if_neg fun h => hPart h.1]⟩
    case isTrue hWhole =>
      refine ⟨_, (resetAll_fund s _ (run.changed_frame hs hSolid).2 _ _).1 hash w hw, ?_⟩
      rw [CProposal.restarted_tally, hwHash]
      simp only [hSeen, hWhole, true_and, Bool.not_eq_true]
  · have hStanding := (run.changed_standing hs hSolid hNotEnd).proposals hash
    rw [hw, hp] at hStanding
    have hState : w.getLastState s.env.mapBlockIndex = p.getLastState s.env.mapBlockIndex :=
      congrArg (·.2.2) (some.inj hStanding)
    unfold CProposal.canVote
    rw [hState]
    exact (Bool.and_eq_true_iff.mp hCount).2

/-- **Payment requests.** -/
theorem request_tallied {r : CPaymentRequest}
    (hr : view.getPaymentRequest hash = some r) (hCount : r.isCounted s.env view = true) :
    ∃ q q', run.counted.getPaymentRequest hash = some q ∧ view'.getPaymentRequest hash = some q' ∧
      Tallied c.mapCachePaymentRequestToUpdate[hash]? s.fScanningWholeCycle s.isCycleEnd r.tally
        q.tally q'.tally := by
  obtain ⟨hTally, hSeen⟩ :=
    (tallyAll_fund hs hSolid hKeyed hName fDAOConsultations c).2 hash r hr hCount
  have hTallied : SameCore view (tallyAll s true fDAOConsultations c view).1 :=
    (tallyAll_countsOnly hs hSolid).toSameCore
  have hFinal :=
    congrArg (·.getPaymentRequest hash) run.result_frame
  refine Tallied.of_object hash (·.canVote s.env run.changed) ?_ (fun q hq => ?_)
    (run.changed_kept hs hSolid hash).2 (fun w hw hwHash => ?_) (fun w hw hNotEnd => ?_)
  · rw [run.counted_eq, (excludeAll_sameTallies (hTallied.solid hSolid) _ _).requests, hTally]
    cases c.mapCachePaymentRequestToUpdate[hash]? <;> rfl
  · obtain ⟨r', hr', hCore⟩ :=
      Map.core_of_some ((run.counted_countsOnly hs hSolid).paymentRequests hash) hq
    exact (congrArg CPaymentRequest.hash hCore).trans (hKeyed.requests hash r' hr')
  · rw [hFinal, run.restarted_eq]
    split
    case isFalse hPart => exact ⟨w, hw, by rw [if_neg fun h => hPart h.1]⟩
    case isTrue hWhole =>
      refine ⟨_, (resetAll_fund s _ (run.changed_frame hs hSolid).2 _ _).2 hash w hw, ?_⟩
      rw [CPaymentRequest.restarted_tally, hwHash]
      simp only [hSeen, hWhole, true_and, Bool.not_eq_true]
  · have hStanding := run.changed_standing hs hSolid hNotEnd
    have hSame := hStanding.requests hash
    rw [hw, hr] at hSame
    rw [hStanding.canVote (some.inj hSame)]
    exact (Bool.and_eq_true_iff.mp hCount).2

end StepRun

/-! ## Exact tallies -/

/-- Every proposal and payment request was created by a block that is known. -/
structure FundPlaced (env : Env) (view : CStateView) : Prop where
  proposals : ∀ hash p, view.getProposal hash = some p → (env.blockOf p.txblockhash).isSome = true
  requests : ∀ hash r, view.getPaymentRequest hash = some r →
    (env.blockOf r.txblockhash).isSome = true

/-- Everything that can be voted on in `view` has, in `view'`, the tallies of the blocks. -/
structure TalliesExact (env : Env) (votes : RecordedVotes) (blocks : Chain)
    (view view' : CStateView) : Prop where
  proposals : ∀ hash p, view.getProposal hash = some p → p.canVote env = true →
    ∃ q, view'.getProposal hash = some q ∧
      q.nVotesYes = blocksVoting (proposalVote votes hash) blocks VOTE_YES ∧
      q.nVotesAbs = blocksVoting (proposalVote votes hash) blocks VOTE_ABSTAIN ∧
      q.nVotesNo = blocksVoting (proposalVote votes hash) blocks VOTE_NO
  requests : ∀ hash r, view.getPaymentRequest hash = some r → r.canVote env view = true →
    ∃ q, view'.getPaymentRequest hash = some q ∧
      q.nVotesYes = blocksVoting (requestVote votes hash) blocks VOTE_YES ∧
      q.nVotesAbs = blocksVoting (requestVote votes hash) blocks VOTE_ABSTAIN ∧
      q.nVotesNo = blocksVoting (requestVote votes hash) blocks VOTE_NO

/-- What can be voted on but has no vote in the cycle brings no abstentions from before, and no
other votes either if the counters are read before a restart or never restarted. -/
@[mk_iff]
structure NoStaleVotes (env : Env) (votes : RecordedVotes) (blocks : Chain)
    (fScanningWholeCycle isCycleEnd : Bool) (view : CStateView) : Prop where
  proposals : ∀ hash p, view.getProposal hash = some p → p.canVote env = true →
    (∀ pindex ∈ blocks, proposalVote votes hash pindex = none) →
    p.nVotesAbs = 0 ∧ (isCycleEnd = true ∨ fScanningWholeCycle = false →
      p.nVotesYes = 0 ∧ p.nVotesNo = 0)
  requests : ∀ hash r, view.getPaymentRequest hash = some r → r.canVote env view = true →
    (∀ pindex ∈ blocks, requestVote votes hash pindex = none) →
    r.nVotesAbs = 0 ∧ (isCycleEnd = true ∨ fScanningWholeCycle = false →
      r.nVotesYes = 0 ∧ r.nVotesNo = 0)

set_option synthInstance.maxSize 512 in
instance (env : Env) (votes : RecordedVotes) (blocks : Chain)
    (fScanningWholeCycle isCycleEnd : Bool) (view : CStateView) :
    Decidable (NoStaleVotes env votes blocks fScanningWholeCycle isCycleEnd view) :=
  decidable_of_iff _ (noStaleVotes_iff ..).symm

theorem tally_eq_iff {n : VoteCount} : n = (cycleCount vote blocks).getD .zero ↔
    n.yes = blocksVoting vote blocks VOTE_YES ∧ n.abs = blocksVoting vote blocks VOTE_ABSTAIN ∧
      n.no = blocksVoting vote blocks VOTE_NO := by
  obtain ⟨yes, no, abs⟩ := n
  rw [cycleCount_eq, VoteCount.mk.injEq]
  tauto

/-- One object: `o` is the object when a decision reads its counters, and `o'` after the call. -/
theorem Tallied.object_iff {α : Type} {tally : α → VoteCount} {o o' : Option α}
    (hCount : count = cycleCount vote blocks) (h : ∃ q q', o = some q ∧ o' = some q' ∧
      Tallied count fScanningWholeCycle isCycleEnd before (tally q) (tally q')) :
    ((∃ w, o' = some w ∧ tally w = (cycleCount vote blocks).getD .zero) ∧
      (isCycleEnd = true → ∃ w, o = some w ∧ tally w = (cycleCount vote blocks).getD .zero)) ↔
    ((∀ pindex ∈ blocks, vote pindex = none) → before.abs = 0 ∧
      (isCycleEnd = true ∨ fScanningWholeCycle = false → before.yes = 0 ∧ before.no = 0)) := by
  obtain ⟨q, q', rfl, rfl, hTallied⟩ := h
  rw [← cycleCount_eq_none, ← hCount, ← hTallied.exact_iff]
  simp only [some.injEq, exists_eq_left']

/-- **One call.** The tallies are exact, after the call and when a decision reads them, exactly
when no object brings stale ones. -/
theorem StepRun.talliesExact_iff {fCFund fDAOConsultations : Bool}
    {c : VoteCache} {fund fund' : Fund}
    (run : StepRun s fCFund fDAOConsultations c fund view fund' view')
    (hs : s.pindexDelete = none) (hSolid : Solid view) (hKeyed : FundKeyed view)
    (hName : OneName view) (hPlaced : FundPlaced s.env view) {votes : RecordedVotes}
    (hCounts : c.Counts votes blocks) (hOn : fCFund = true) :
    (TalliesExact s.env votes blocks view view' ∧
      (s.isCycleEnd = true → TalliesExact s.env votes blocks view run.counted)) ↔
    NoStaleVotes s.env votes blocks s.fScanningWholeCycle s.isCycleEnd view := by
  subst hOn
  have hProposal := fun (hash : UInt256) (p : CProposal) (hp : view.getProposal hash = some p)
      (hVote : p.canVote s.env = true) =>
    Tallied.object_iff (hCounts.proposals hash) (run.proposal_tallied hs hSolid hKeyed hName hp
      (Bool.and_eq_true_iff.mpr ⟨hPlaced.proposals hash p hp, hVote⟩))
  have hRequest := fun (hash : UInt256) (r : CPaymentRequest)
      (hr : view.getPaymentRequest hash = some r) (hVote : r.canVote s.env view = true) =>
    Tallied.object_iff (hCounts.requests hash) (run.request_tallied hs hSolid hKeyed hName hr
      (Bool.and_eq_true_iff.mpr ⟨hPlaced.requests hash r hr, hVote⟩))
  -- object by object, in the terms of `TalliesExact`
  simp only [tally_eq_iff] at hProposal hRequest
  constructor
  · rintro ⟨hAfter, hEnd⟩
    refine ⟨fun hash p hp hVote => ?_, fun hash r hr hVote => ?_⟩
    · exact (hProposal hash p hp hVote).mp ⟨hAfter.proposals hash p hp hVote,
        fun hCycle => (hEnd hCycle).proposals hash p hp hVote⟩
    · exact (hRequest hash r hr hVote).mp ⟨hAfter.requests hash r hr hVote,
        fun hCycle => (hEnd hCycle).requests hash r hr hVote⟩
  · intro hStale
    have hProposals := fun hash p hp hVote =>
      (hProposal hash p hp hVote).mpr (hStale.proposals hash p hp hVote)
    have hRequests := fun hash r hr hVote =>
      (hRequest hash r hr hVote).mpr (hStale.requests hash r hr hVote)
    refine ⟨⟨?_, ?_⟩, fun hCycle => ⟨?_, ?_⟩⟩
    · exact fun hash p hp hVote => (hProposals hash p hp hVote).1
    · exact fun hash r hr hVote => (hRequests hash r hr hVote).1
    · exact fun hash p hp hVote => (hProposals hash p hp hVote).2 hCycle
    · exact fun hash r hr hVote => (hRequests hash r hr hVote).2 hCycle

end Electrum
