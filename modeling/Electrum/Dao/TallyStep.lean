import Electrum.Dao.Tallies

/-!
# Storing the count of a cycle

The counting phase of `VoteStep` writes the count of the cycle into every proposal and payment
request that has one and can be voted on, and marks these objects as seen.

Main results:
* `SameStanding.canVote` — what `CanVote` of a payment request depends on
* `Table.foldl_tally` — a loop that writes counts into objects
* `tallyAll_fund` — the counting phase
-/

namespace Electrum

open Option

/-! ## What can be voted on -/

/-- What others see of a request: its amount, its proposal and its state. -/
def CPaymentRequest.standing (env : Env) (r : CPaymentRequest) : Int × UInt256 × Flags :=
  (r.nAmount, r.proposalhash, r.getLastState env.mapBlockIndex)

/-- What payment requests see of their proposal. -/
def CProposal.standing (env : Env) (p : CProposal) : Int × UInt256 × Flags :=
  (p.nAmount, p.hash, p.getLastState env.mapBlockIndex)

/-- The views hold objects of the same standing. -/
structure SameStanding (env : Env) (view view' : CStateView) : Prop where
  proposals : ∀ hash, (view'.getProposal hash).map (·.standing env) =
    (view.getProposal hash).map (·.standing env)
  requests : ∀ hash, (view'.getPaymentRequest hash).map (·.standing env) =
    (view.getPaymentRequest hash).map (·.standing env)

namespace SameStanding

variable {env : Env} {view view' : CStateView}

theorem trans {u v w : CStateView} (h : SameStanding env u v) (h' : SameStanding env v w) :
    SameStanding env u w :=
  ⟨fun hash => (h'.proposals hash).trans (h.proposals hash),
    fun hash => (h'.requests hash).trans (h.requests hash)⟩

/-- Counters do not matter. -/
theorem of_sameCore (env : Env) (h : SameCore view view') : SameStanding env view view' := by
  refine ⟨fun hash => ?_, fun hash => ?_⟩
  · have hMap := congrArg (Option.map (CProposal.standing env)) (h.proposals hash)
    rw [map_map, map_map] at hMap
    exact hMap
  · have hMap := congrArg (Option.map (CPaymentRequest.standing env)) (h.paymentRequests hash)
    rw [map_map, map_map] at hMap
    exact hMap

theorem sameBooks (h : SameStanding env view view') : SameBooks env view view' := by
  have hRequest (o : Option CPaymentRequest) : o.bind (·.book env) =
      (o.map (·.standing env)).bind fun t =>
        if t.2.2 == .accepted || t.2.2 == .paid then some (t.1, t.2.1) else none := by
    cases o <;> rfl
  have hProposal (o : Option CProposal) : o.bind (·.book env) =
      (o.map (·.standing env)).bind fun t =>
        if t.2.2 == .accepted || t.2.2 == .pendingVotingPreq then some (t.1, t.2.1) else none := by
    cases o <;> rfl
  refine ⟨fun hash => ?_, fun hash => ?_⟩
  · rw [hRequest, h.requests, ← hRequest]
  · rw [hProposal, h.proposals, ← hProposal]

/-- **CanVote.** It depends on the standing of the objects alone. -/
theorem canVote (h : SameStanding env view view') {r r' : CPaymentRequest}
    (hr : r'.standing env = r.standing env) : r'.canVote env view' = r.canVote env view := by
  obtain ⟨hAmount, hRest⟩ := Prod.mk.inj hr
  obtain ⟨hProposal, hState⟩ := Prod.mk.inj hRest
  unfold CPaymentRequest.canVote
  rw [hProposal, hAmount, hState]
  have hSame := h.proposals r.proposalhash
  cases hp' : view'.getProposal r.proposalhash with
  | none =>
    rw [hp'] at hSame
    rw [map_eq_none_iff.mp hSame.symm]
  | some p' =>
    rw [hp'] at hSame
    obtain ⟨p, hp, hStanding⟩ := map_eq_some_iff.mp hSame.symm
    obtain ⟨hpAmount, hpRest⟩ := Prod.mk.inj hStanding
    obtain ⟨hpHash, hpState⟩ := Prod.mk.inj hpRest
    rw [hp]
    dsimp only
    rw [CProposal.getAvailable_eq, CProposal.getAvailable_eq, h.sameBooks.sums.2.1, hpAmount,
      hpHash, hpState]

end SameStanding

/-- A proposal that a count can reach: its block is known and it can be voted on. -/
def CProposal.isCounted (env : Env) (p : CProposal) : Bool :=
  (env.blockOf p.txblockhash).isSome && p.canVote env

/-- The same for a payment request. -/
def CPaymentRequest.isCounted (env : Env) (view : CStateView) (r : CPaymentRequest) : Bool :=
  (env.blockOf r.txblockhash).isSome && r.canVote env view

theorem CProposal.isCounted_core {env : Env} {p q : CProposal} (h : q.core = p.core) :
    q.isCounted env = p.isCounted env := by
  rw [CProposal.eq_of_core h]
  rfl

theorem CPaymentRequest.isCounted_core {env : Env} {view view' : CStateView}
    (hSame : SameCore view view') {r q : CPaymentRequest} (h : q.core = r.core) :
    q.isCounted env view' = r.isCounted env view := by
  have hStanding : q.standing env = r.standing env := by
    rw [CPaymentRequest.eq_of_core h]
    rfl
  have hBlock : q.txblockhash = r.txblockhash := by rw [CPaymentRequest.eq_of_core h]
  unfold isCounted
  rw [hBlock, (SameStanding.of_sameCore env hSame).canVote hStanding]

/-! ## Storing counts -/

def CProposal.withVotes (n : VoteCount) (p : CProposal) : CProposal :=
  { p with nVotesYes := n.yes, nVotesAbs := n.abs, nVotesNo := n.no }

def CPaymentRequest.withVotes (n : VoteCount) (r : CPaymentRequest) : CPaymentRequest :=
  { r with nVotesYes := n.yes, nVotesAbs := n.abs, nVotesNo := n.no }

section Store

variable {s : StepContext} (hs : s.pindexDelete = none)

section Turns

include hs

theorem tallyProposal_eq (st : Tally) (hash : UInt256) (count : VoteCount) :
    tallyProposal s st hash count = match st.1.getProposal hash with
      | none => st
      | some p => if p.isCounted s.env then
          (st.1.setProposal hash (p.withVotes count), p.hash :: st.2) else st := by
  unfold tallyProposal CProposal.isCounted
  rw [hs]
  cases hp : st.1.getProposal hash with
  | none => rfl
  | some p =>
    cases hBlock : s.env.blockOf p.txblockhash with
    | none => simp [hBlock]
    | some pblockindex => cases hVote : p.canVote s.env <;> simp [hBlock, hVote, CProposal.withVotes]

theorem tallyPaymentRequest_eq (st : Tally) (hash : UInt256) (count : VoteCount) :
    tallyPaymentRequest s st hash count = match st.1.getPaymentRequest hash with
      | none => st
      | some r => if r.isCounted s.env st.1 then
          (st.1.setPaymentRequest hash (r.withVotes count), r.hash :: st.2) else st := by
  unfold tallyPaymentRequest CPaymentRequest.isCounted
  rw [hs]
  cases hr : st.1.getPaymentRequest hash with
  | none => rfl
  | some r =>
    cases hBlock : s.env.blockOf r.txblockhash with
    | none => simp [hBlock]
    | some pblockindex =>
      cases hVote : r.canVote s.env st.1 <;> simp [hBlock, hVote, CPaymentRequest.withVotes]

end Turns

variable {view : CStateView}

/-- A loop that stores counts in the objects of a table which the program counts: such an object
gets its count, if there is one, and is marked as seen, and nothing else happens. -/
theorem Table.foldl_tally {α : Type} (T : Table CStateView UInt256 α)
    (good : UInt256 → α → Prop) {f : Tally → UInt256 → VoteCount → Tally}
    (counted : CStateView → α → Bool) (name : α → UInt256) (write : VoteCount → α → α)
    (hNull : ∀ {k a}, good k a → T.isNull a = false)
    (hWrite : ∀ {k a} n, good k a → good k (write n a)) (hName : ∀ {k a}, good k a → name a = k)
    (hCounted : ∀ v k a b, T.Loop good view v → T.get v k = some a → T.get view k = some b →
      counted v a = counted view b)
    (hNone : ∀ st k n, T.get st.1 k = none → f st k n = st)
    (hTurn : ∀ st k n a, T.get st.1 k = some a → f st k n =
      if counted st.1 a then (T.set st.1 k (write n a), name a :: st.2) else st)
    (hInit : ∀ k a, T.get view k = some a → good k a) (m : Map UInt256 VoteCount)
    (seen : List UInt256) :
    T.Loop good view (m.foldl f (view, seen)).1 ∧ ∀ k,
      ((∃ a, T.get view k = some a ∧ counted view a = true) → ∀ n, m[k]? = some n →
        T.get (m.foldl f (view, seen)).1 k = (T.get view k).map (write n)) ∧
      (m[k]? = none → T.get (m.foldl f (view, seen)).1 k = T.get view k) ∧
      (k ∈ (m.foldl f (view, seen)).2 ↔ k ∈ seen ∨
        ((∃ a, T.get view k = some a ∧ counted view a = true) ∧ (m[k]?).isSome = true)) := by
  generalize hTaken : (fun k => ∃ a, T.get view k = some a ∧ counted view a = true) = taken
  have hIff (k) : taken k ↔ ∃ a, T.get view k = some a ∧ counted view a = true := by rw [← hTaken]
  simp only [← hIff]
  -- a turn from any point of the loop
  have hCases : ∀ (st : Tally) k n, T.Loop good view st.1 →
      (∃ a, T.get st.1 k = some a ∧ taken k ∧ f st k n = (T.set st.1 k (write n a), k :: st.2)) ∨
      (¬taken k ∧ f st k n = st) := by
    intro st k n hLoop
    have hKey := hLoop.keys k
    rw [hIff]
    cases ha : T.get st.1 k with
    | none =>
      refine .inr ⟨?_, hNone st k n ha⟩
      rintro ⟨b, hb, -⟩
      rw [ha, hb] at hKey
      cases hKey
    | some a =>
      rw [ha] at hKey
      obtain ⟨b, hb⟩ := isSome_iff_exists.mp hKey.symm
      have hSame := hCounted st.1 k a b hLoop ha hb
      rw [hTurn st k n a ha]
      split
      case isTrue hTaken =>
        refine .inl ⟨a, rfl, ⟨b, hb, hSame.symm.trans hTaken⟩, ?_⟩
        rw [hName (hLoop.good k a ha)]
      case isFalse hNot =>
        refine .inr ⟨?_, rfl⟩
        rintro ⟨c, hc, hTaken⟩
        cases hb.symm.trans hc
        exact hNot (hSame.trans hTaken)
  have hEnd := foldl_invariant (f := fun st (it : UInt256 × VoteCount) => f st it.1 it.2)
    (fun done (st : Tally) => T.Loop good view st.1 ∧ ∀ k,
      (taken k → ∀ n, (k, n) ∈ done → T.get st.1 k = (T.get view k).map (write n)) ∧
      ((∀ n, (k, n) ∉ done) → T.get st.1 k = T.get view k) ∧
      (k ∈ st.2 ↔ k ∈ seen ∨ (taken k ∧ ∃ n, (k, n) ∈ done)))
    m.toList (b := (view, seen)) ⟨.refl hInit, fun k => ⟨by simp, fun _ => rfl, by simp⟩⟩ ?_
  · rw [Std.ExtTreeMap.foldl_eq_foldl_toList]
    refine ⟨hEnd.1, fun k => ?_⟩
    obtain ⟨hGet, hNone, hSeen⟩ := hEnd.2 k
    simp only [Std.ExtTreeMap.mem_toList_iff_getElem?_eq_some] at hGet hNone hSeen
    refine ⟨hGet, fun hn => hNone fun n hSome => ?_, ?_⟩
    · rw [hn] at hSome
      cases hSome
    · rw [hSeen, isSome_iff_exists]
  · rintro done ⟨key, count⟩ rest st hl ⟨hLoop, hKeys⟩
    -- each key comes once
    have hNew : ∀ n, (key, n) ∉ done := by
      intro n hMem
      have hDistinct := Std.ExtTreeMap.distinct_keys_toList (t := m)
      rw [hl, List.pairwise_append] at hDistinct
      exact hDistinct.2.2 _ hMem _ List.mem_cons_self Std.compare_self
    rcases hCases st key count hLoop with ⟨a, ha, hKey, hEq⟩ | ⟨hNot, hEq⟩
    · have hGood := hWrite count (hLoop.good key a ha)
      rw [hEq]
      refine ⟨hLoop.set ha hGood (hNull hGood), fun k => ?_⟩
      obtain ⟨hGet, hNone, hSeen⟩ := hKeys k
      rw [Table.get_set (hNull hGood), List.mem_cons, hSeen]
      by_cases hk : key = k
      · subst hk
        have hOld := (hNone hNew).symm.trans ha
        simp [hNew, hKey, hOld]
      · simpa [hk, Ne.symm hk] using And.intro hGet hNone
    · rw [hEq]
      refine ⟨hLoop, fun k => ?_⟩
      obtain ⟨hGet, hNone, hSeen⟩ := hKeys k
      rw [hSeen]
      by_cases hk : key = k
      · subst hk
        simpa [hNot] using fun hFree => absurd rfl (hFree count).2
      · simpa [Ne.symm hk] using And.intro hGet hNone

/-- The proposals that a count can reach. -/
def CountedProposal (env : Env) (view : CStateView) (hash : UInt256) : Prop :=
  ∃ p, view.getProposal hash = some p ∧ p.isCounted env = true

def CountedRequest (env : Env) (view : CStateView) (hash : UInt256) : Prop :=
  ∃ r, view.getPaymentRequest hash = some r ∧ r.isCounted env view = true

/-- A loop over one kind of object that only changes counters. -/
theorem SameCore.of_proposals {good : UInt256 → CProposal → Prop} {v : CStateView}
    (h : proposalTable.Loop good view v) (hCore : ∀ k p, good k p →
      some p.core = (view.getProposal k).map CProposal.core) : SameCore view v := by
  rw [h.frame]
  exact { SameCore.refl view with proposals := h.map_get hCore }

theorem SameCore.of_requests {good : UInt256 → CPaymentRequest → Prop} {v : CStateView}
    (h : requestTable.Loop good view v) (hCore : ∀ k r, good k r →
      some r.core = (view.getPaymentRequest k).map CPaymentRequest.core) : SameCore view v := by
  rw [h.frame]
  exact { SameCore.refl view with paymentRequests := h.map_get hCore }

variable (hSolid : Solid view)
include hs hSolid

/-- **Proposals.** -/
theorem tallyProposals_spec (hKeyed : ∀ hash p, view.getProposal hash = some p → p.hash = hash)
    (m : Map UInt256 VoteCount) (seen : List UInt256) :
    let st := m.foldl (tallyProposal s) (view, seen)
    (SameCore view st.1 ∧ st.1 = { view with proposals := st.1.proposals }) ∧ ∀ hash,
      (CountedProposal s.env view hash → ∀ n, m[hash]? = some n →
        st.1.getProposal hash = (view.getProposal hash).map (·.withVotes n)) ∧
      (m[hash]? = none → st.1.getProposal hash = view.getProposal hash) ∧
      (hash ∈ st.2 ↔ hash ∈ seen ∨
        (CountedProposal s.env view hash ∧ (m[hash]?).isSome = true)) := by
  obtain ⟨hLoop, hEach⟩ := proposalTable.foldl_tally
    (fun k p => some p.core = (view.getProposal k).map CProposal.core ∧
      p.core.isNull = false ∧ p.hash = k)
    (fun _ p => p.isCounted s.env) CProposal.hash CProposal.withVotes (f := tallyProposal s)
    (fun h => CProposal.notNull_of_core h.2.1) (fun _ h => h) (fun h => h.2.2)
    (fun v k p q hv hp hq => by
      have hCore := (hv.good k p hp).1
      rw [show view.getProposal k = some q from hq] at hCore
      exact CProposal.isCounted_core (some.inj hCore))
    (fun st k n h => by rw [tallyProposal_eq hs, show st.1.getProposal k = none from h])
    (fun st k n p h => by
      rw [tallyProposal_eq hs, show st.1.getProposal k = some p from h]
      rfl)
    (fun k p hp => ⟨(congrArg (Option.map _) hp).symm, hSolid.proposals k p hp, hKeyed k p hp⟩)
    m seen
  exact ⟨⟨.of_proposals hLoop fun _ _ h => h.1, hLoop.frame⟩, hEach⟩

/-- **Payment requests.** -/
theorem tallyRequests_spec (hKeyed : ∀ hash r, view.getPaymentRequest hash = some r → r.hash = hash)
    (m : Map UInt256 VoteCount) (seen : List UInt256) :
    let st := m.foldl (tallyPaymentRequest s) (view, seen)
    (SameCore view st.1 ∧ st.1 = { view with paymentRequests := st.1.paymentRequests }) ∧ ∀ hash,
      (CountedRequest s.env view hash → ∀ n, m[hash]? = some n →
        st.1.getPaymentRequest hash = (view.getPaymentRequest hash).map (·.withVotes n)) ∧
      (m[hash]? = none → st.1.getPaymentRequest hash = view.getPaymentRequest hash) ∧
      (hash ∈ st.2 ↔ hash ∈ seen ∨
        (CountedRequest s.env view hash ∧ (m[hash]?).isSome = true)) := by
  obtain ⟨hLoop, hEach⟩ := requestTable.foldl_tally
    (fun k r => some r.core = (view.getPaymentRequest k).map CPaymentRequest.core ∧
      r.core.isNull = false ∧ r.hash = k)
    (fun v r => r.isCounted s.env v) CPaymentRequest.hash CPaymentRequest.withVotes
    (f := tallyPaymentRequest s)
    (fun h => CPaymentRequest.notNull_of_core h.2.1) (fun _ h => h) (fun h => h.2.2)
    (fun v k r q hv hr hq => by
      have hCore := (hv.good k r hr).1
      rw [show view.getPaymentRequest k = some q from hq] at hCore
      exact CPaymentRequest.isCounted_core (.of_requests hv fun _ _ h => h.1)
        (some.inj hCore))
    (fun st k n h => by
      rw [tallyPaymentRequest_eq hs, show st.1.getPaymentRequest k = none from h])
    (fun st k n r h => by
      rw [tallyPaymentRequest_eq hs, show st.1.getPaymentRequest k = some r from h]
      rfl)
    (fun k r hr =>
      ⟨(congrArg (Option.map _) hr).symm, hSolid.paymentRequests k r hr, hKeyed k r hr⟩)
    m seen
  exact ⟨⟨.of_requests hLoop fun _ _ h => h.1, hLoop.frame⟩, hEach⟩

end Store

/-! ## The counting phase -/

/-- A hash names one object, as the hashes of different transactions and texts differ. -/
@[mk_iff]
structure OneName (view : CStateView) : Prop where
  proposals : ∀ hash, (view.getProposal hash).isSome = true →
    view.getPaymentRequest hash = none ∧ view.getConsultation hash = none ∧
      view.getConsultationAnswer hash = none
  requests : ∀ hash, (view.getPaymentRequest hash).isSome = true →
    view.getConsultation hash = none ∧ view.getConsultationAnswer hash = none

instance (view : CStateView) : Decidable (OneName view) :=
  decidable_of_iff _ (oneName_iff view).symm

/-- Every proposal and payment request is stored under its hash. -/
structure FundKeyed (view : CStateView) : Prop where
  proposals : ∀ hash p, view.getProposal hash = some p → p.hash = hash
  requests : ∀ hash r, view.getPaymentRequest hash = some r → r.hash = hash

/-- The consultations' loops keep proposals and payment requests. -/
structure SameFund (view view' : CStateView) : Prop where
  proposals : view'.proposals = view.proposals
  requests : view'.paymentRequests = view.paymentRequests

theorem SameFund.trans {u v w : CStateView} (h : SameFund u v) (h' : SameFund v w) : SameFund u w :=
  ⟨h'.proposals.trans h.proposals, h'.requests.trans h.requests⟩

section Count

variable {s : StepContext} (hs : s.pindexDelete = none)
include hs

omit hs in
theorem tallySupport_sameFund (st : Tally) (hash : UInt256) (count : Int) :
    SameFund st.1 (tallySupport s st hash count).1 := by
  unfold tallySupport
  dsimp only
  repeat' split
  all_goals exact ⟨rfl, rfl⟩

/-- A consultation's loop marks the names of consultations and answers as seen. -/
theorem tallyConsultation_seen (st : Tally × List UInt256) (key : UInt256 × Int) (count : Int) :
    SameFund st.1.1 (tallyConsultation s st key count).1.1 ∧
    ((tallyConsultation s st key count).1.2 = st.1.2 ∨
      ((tallyConsultation s st key count).1.2 = key.1 :: st.1.2 ∧
        ((st.1.1.getConsultation key.1).isSome = true ∨
          (st.1.1.getConsultationAnswer key.1).isSome = true))) := by
  unfold tallyConsultation
  rw [hs]
  dsimp only
  split
  case h_1 c hc =>
    split
    · exact ⟨⟨rfl, rfl⟩, .inl rfl⟩
    · split
      · exact ⟨⟨rfl, rfl⟩, .inl rfl⟩
      · exact ⟨⟨rfl, rfl⟩, .inr ⟨rfl, .inl (by rw [hc]; rfl)⟩⟩
  case h_2 =>
    split
    · exact ⟨⟨rfl, rfl⟩, .inl rfl⟩
    · rename_i a ha
      split
      · exact ⟨⟨rfl, rfl⟩, .inl rfl⟩
      · split
        · exact ⟨⟨rfl, rfl⟩, .inl rfl⟩
        · exact ⟨⟨rfl, rfl⟩, .inr ⟨rfl, .inr (by rw [ha]; rfl)⟩⟩

/-- **Consultations.** The other two loops keep the fund's objects, and mark names that are not
theirs. -/
theorem tallyDAO_spec {view : CStateView} (hSolid : Solid view) (c : VoteCache)
    (seen : List UInt256) :
    let sup := c.mapCacheSupportToUpdate.foldl (tallySupport s) (view, [])
    let con := c.mapCacheConsultationToUpdate.foldl (tallyConsultation s) ((sup.1, seen), [])
    SameFund view con.1.1 ∧ ∀ hash, (hash ∈ seen → hash ∈ con.1.2) ∧
      (hash ∈ con.1.2 → hash ∈ seen ∨ (view.getConsultation hash).isSome = true ∨
        (view.getConsultationAnswer hash).isSome = true) := by
  intro sup con
  have hSup : SameCore view sup.1 ∧ SameFund view sup.1 := by
    show SameCore view (c.mapCacheSupportToUpdate.foldl (tallySupport s) (view, [])).1 ∧
      SameFund view (c.mapCacheSupportToUpdate.foldl (tallySupport s) (view, [])).1
    rw [Std.ExtTreeMap.foldl_eq_foldl_toList]
    refine foldl_invariant (fun _ (st : Tally) => SameCore view st.1 ∧ SameFund view st.1)
      c.mapCacheSupportToUpdate.toList (b := (view, [])) ⟨.refl view, ⟨rfl, rfl⟩⟩ ?_
    rintro done ⟨hash, count⟩ rest st - ⟨hSame, hFund⟩
    exact ⟨hSame.trans (((tallyDAO_writes.1 _).of_tallies hs).countsOnly
        (hSame.solid hSolid)).toSameCore,
      hFund.trans (tallySupport_sameFund st hash count)⟩
  -- counting takes no new name
  have hNamed : ∀ v : CStateView, SameCore view v → ∀ hash,
      ((v.getConsultation hash).isSome = true ∨ (v.getConsultationAnswer hash).isSome = true) →
      ((view.getConsultation hash).isSome = true ∨
        (view.getConsultationAnswer hash).isSome = true) := by
    intro v hSame hash hName
    have hConsultation := congrArg isSome (hSame.consultations hash)
    have hAnswer := congrArg isSome (hSame.answers hash)
    rw [isSome_map, isSome_map] at hConsultation hAnswer
    rwa [hConsultation, hAnswer] at hName
  have hCon : SameCore view con.1.1 ∧ SameFund view con.1.1 ∧ ∀ hash,
      (hash ∈ seen → hash ∈ con.1.2) ∧
      (hash ∈ con.1.2 → hash ∈ seen ∨ (view.getConsultation hash).isSome = true ∨
        (view.getConsultationAnswer hash).isSome = true) := by
    have hFold : con = c.mapCacheConsultationToUpdate.toList.foldl
        (fun st it => tallyConsultation s st it.1 it.2) ((sup.1, seen), []) :=
      Std.ExtTreeMap.foldl_eq_foldl_toList
    rw [hFold]
    refine foldl_invariant (fun _ (st : Tally × List UInt256) =>
        SameCore view st.1.1 ∧ SameFund view st.1.1 ∧ ∀ hash,
        (hash ∈ seen → hash ∈ st.1.2) ∧
        (hash ∈ st.1.2 → hash ∈ seen ∨ (view.getConsultation hash).isSome = true ∨
          (view.getConsultationAnswer hash).isSome = true))
      c.mapCacheConsultationToUpdate.toList (b := ((sup.1, seen), []))
      ⟨hSup.1, hSup.2, fun hash => ⟨id, .inl⟩⟩ ?_
    rintro done ⟨key, count⟩ rest st - ⟨hSame, hFund, hSeen⟩
    obtain ⟨hKeeps, hMark⟩ := tallyConsultation_seen hs st key count
    refine ⟨hSame.trans (((tallyDAO_writes.2 _ _).of_tallies hs).countsOnly
        (hSame.solid hSolid)).toSameCore,
      hFund.trans hKeeps, fun hash => ?_⟩
    rcases hMark with hMark | ⟨hMark, hName⟩
    · rw [hMark]
      exact hSeen hash
    · rw [hMark, List.mem_cons]
      refine ⟨fun h => .inr ((hSeen hash).1 h), ?_⟩
      rintro (rfl | h)
      · exact .inr (hNamed st.1.1 hSame _ hName)
      · exact (hSeen hash).2 h
  exact ⟨hCon.2.1, hCon.2.2⟩

/-- **Counting.** A proposal or payment request that can be voted on gets the count of the
cycle and is marked as seen, if there is a count for it. -/
theorem tallyAll_fund {view : CStateView} (hSolid : Solid view) (hKeyed : FundKeyed view)
    (hName : OneName view) (fDAOConsultations : Bool) (c : VoteCache) :
    let t := tallyAll s true fDAOConsultations c view
    (∀ hash p, view.getProposal hash = some p → p.isCounted s.env = true → t.1.getProposal hash =
        some ((c.mapCacheProposalsToUpdate[hash]?).elim p (p.withVotes ·)) ∧
      (hash ∈ t.2.1 ↔ (c.mapCacheProposalsToUpdate[hash]?).isSome = true)) ∧
    ∀ hash r, view.getPaymentRequest hash = some r → r.isCounted s.env view = true →
      t.1.getPaymentRequest hash =
        some ((c.mapCachePaymentRequestToUpdate[hash]?).elim r (r.withVotes ·)) ∧
      (hash ∈ t.2.1 ↔ (c.mapCachePaymentRequestToUpdate[hash]?).isSome = true) := by
  intro t
  have hProposals := tallyProposals_spec hs hSolid hKeyed.proposals c.mapCacheProposalsToUpdate []
  -- the last two loops, which run if their deployment is active
  have hLast : ∀ st : Tally, Solid st.1 → t = (if fDAOConsultations then
      let sup := c.mapCacheSupportToUpdate.foldl (tallySupport s) (st.1, [])
      let con := c.mapCacheConsultationToUpdate.foldl (tallyConsultation s) ((sup.1, st.2), [])
      (con.1.1, con.1.2, sup.2) else (st.1, st.2, [])) →
      SameFund st.1 t.1 ∧ ∀ hash, (hash ∈ st.2 → hash ∈ t.2.1) ∧
        (hash ∈ t.2.1 → hash ∈ st.2 ∨ (st.1.getConsultation hash).isSome = true ∨
          (st.1.getConsultationAnswer hash).isSome = true) := by
    intro st hSt ht
    rw [ht]
    cases fDAOConsultations with
    | false => exact ⟨⟨rfl, rfl⟩, fun _ => ⟨id, .inl⟩⟩
    | true => exact tallyDAO_spec hs hSt c st.2
  have ht : t = (if fDAOConsultations then
      let st := c.mapCachePaymentRequestToUpdate.foldl (tallyPaymentRequest s)
        (c.mapCacheProposalsToUpdate.foldl (tallyProposal s) (view, []))
      let sup := c.mapCacheSupportToUpdate.foldl (tallySupport s) (st.1, [])
      let con := c.mapCacheConsultationToUpdate.foldl (tallyConsultation s) ((sup.1, st.2), [])
      (con.1.1, con.1.2, sup.2) else
      let st := c.mapCachePaymentRequestToUpdate.foldl (tallyPaymentRequest s)
        (c.mapCacheProposalsToUpdate.foldl (tallyProposal s) (view, []))
      (st.1, st.2, [])) := rfl
  generalize c.mapCacheProposalsToUpdate.foldl (tallyProposal s) (view, []) = st1
    at hProposals ht
  obtain ⟨⟨hSame1, hFrame1⟩, hProposals⟩ := hProposals
  have hRequestsSame : ∀ hash, st1.1.getPaymentRequest hash = view.getPaymentRequest hash := by
    intro hash
    rw [hFrame1]
    rfl
  have hRequests := tallyRequests_spec hs (hSame1.solid hSolid)
    (fun hash r hr => hKeyed.requests hash r ((hRequestsSame hash).symm.trans hr))
    c.mapCachePaymentRequestToUpdate st1.2
  generalize c.mapCachePaymentRequestToUpdate.foldl (tallyPaymentRequest s) (st1.1, st1.2) = st2
    at hRequests ht
  obtain ⟨⟨hSame2, hFrame2⟩, hRequests⟩ := hRequests
  have hSame := hSame1.trans hSame2
  obtain ⟨hFund, hSeen⟩ := hLast st2 (hSame.solid hSolid) ht
  -- what the last two loops mark is neither a proposal nor a payment request
  have hMark : ∀ hash, view.getConsultation hash = none →
      view.getConsultationAnswer hash = none → (hash ∈ t.2.1 ↔ hash ∈ st2.2) := by
    intro hash hNoConsultation hNoAnswer
    refine ⟨fun h => ?_, (hSeen hash).1⟩
    rcases (hSeen hash).2 h with h | h | h
    · exact h
    · have hCore := congrArg isSome (hSame.consultations hash)
      rw [isSome_map, hNoConsultation, h] at hCore
      cases hCore
    · have hCore := congrArg isSome (hSame.answers hash)
      rw [isSome_map, hNoAnswer, h] at hCore
      cases hCore
  -- an object gets its count in its own loop, and the later loops leave it
  refine ⟨fun hash p hp hCounted => ?_, fun hash r hr hCounted => ?_⟩
  · obtain ⟨hNoRequest, hNoConsultation, hNoAnswer⟩ := hName.proposals hash (by rw [hp]; rfl)
    have hTaken : CountedProposal s.env view hash := ⟨p, hp, hCounted⟩
    obtain ⟨hSet, hKept, hMarked⟩ := hProposals hash
    have hGet : t.1.getProposal hash = st1.1.getProposal hash := by
      rw [CStateView.getProposal, hFund.proposals, hFrame2]
      rfl
    have hNotRequest : ¬CountedRequest s.env st1.1 hash := by
      rintro ⟨r, hr, -⟩
      rw [hRequestsSame, hNoRequest] at hr
      cases hr
    refine ⟨?_, ?_⟩
    · rw [hGet]
      cases hn : c.mapCacheProposalsToUpdate[hash]? with
      | none => rw [hKept hn, hp]; rfl
      | some n => rw [hSet hTaken n hn, hp]; rfl
    · rw [hMark hash hNoConsultation hNoAnswer, (hRequests hash).2.2, hMarked]
      simp [hTaken, hNotRequest]
  · obtain ⟨hNoConsultation, hNoAnswer⟩ := hName.requests hash (by rw [hr]; rfl)
    have hTaken : CountedRequest s.env st1.1 hash := by
      refine ⟨r, (hRequestsSame hash).trans hr, ?_⟩
      rw [CPaymentRequest.isCounted_core hSame1 rfl]
      exact hCounted
    obtain ⟨hSet, hKept, hMarked⟩ := hRequests hash
    have hGet : t.1.getPaymentRequest hash = st2.1.getPaymentRequest hash := by
      rw [CStateView.getPaymentRequest, hFund.requests]
      rfl
    have hNotProposal : ¬CountedProposal s.env view hash := by
      rintro ⟨p, hp, -⟩
      rw [(hName.proposals hash (by rw [hp]; rfl)).1] at hr
      cases hr
    refine ⟨?_, ?_⟩
    · rw [hGet]
      cases hn : c.mapCachePaymentRequestToUpdate[hash]? with
      | none => rw [hKept hn, hRequestsSame, hr]; rfl
      | some n => rw [hSet hTaken n hn, hRequestsSame, hr]; rfl
    · rw [hMark hash hNoConsultation hNoAnswer, hMarked, (hProposals hash).2.2]
      simp [hTaken, hNotProposal]

end Count

end Electrum
