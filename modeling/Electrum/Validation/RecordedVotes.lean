import Electrum.Dao.TallyRun
import Electrum.Validation.Chain

/-!
# The votes that connecting a block records

`ConnectBlock` records votes under the hash of its block and nowhere else, also when it rejects
the block.  Before the community fund is deployed it records no vote on proposals and payment
requests, and creates none.

Main results:
* `connectBlock_records` — what `ConnectBlock` does to the recorded votes
* `ConnectRun.dormant` — before the deployment the fund's objects stay as they are
-/

namespace Electrum

open Relation.ReflTransGen Option Bool

/-! ## The records of one block -/

/-- Only the records of the block change, and before the deployment none of the fund's. -/
structure RecordsFor (fCFund : Bool) (block : UInt256) (r r' : RecordedVotes) : Prop where
  proposals : ∀ k, k ≠ block → r'.vProposalVotes[k]? = r.vProposalVotes[k]?
  requests : ∀ k, k ≠ block → r'.vPaymentRequestVotes[k]? = r.vPaymentRequestVotes[k]?
  support : ∀ k, k ≠ block → r'.mapSupport[k]? = r.mapSupport[k]?
  consultations : ∀ k, k ≠ block → r'.mapConsultationVotes[k]? = r.mapConsultationVotes[k]?
  inactive : fCFund = false → r'.vProposalVotes = r.vProposalVotes ∧
    r'.vPaymentRequestVotes = r.vPaymentRequestVotes

namespace RecordsFor

variable {fCFund : Bool} {block : UInt256}

theorem refl (r : RecordedVotes) : RecordsFor fCFund block r r :=
  ⟨fun _ _ => rfl, fun _ _ => rfl, fun _ _ => rfl, fun _ _ => rfl, fun _ => ⟨rfl, rfl⟩⟩

theorem trans {r s t : RecordedVotes} (h : RecordsFor fCFund block r s)
    (h' : RecordsFor fCFund block s t) : RecordsFor fCFund block r t where
  proposals k hk := (h'.proposals k hk).trans (h.proposals k hk)
  requests k hk := (h'.requests k hk).trans (h.requests k hk)
  support k hk := (h'.support k hk).trans (h.support k hk)
  consultations k hk := (h'.consultations k hk).trans (h.consultations k hk)
  inactive hOff := ⟨(h'.inactive hOff).1.trans (h.inactive hOff).1,
    (h'.inactive hOff).2.trans (h.inactive hOff).2⟩

variable (r : RecordedVotes) (hash : UInt256) (vote : Int)

theorem pushProposalVote (hOn : fCFund = true) :
    RecordsFor fCFund block r (r.pushProposalVote block hash vote) :=
  { (refl r : RecordsFor fCFund block r r) with
    proposals := fun k hk => by
      show (Map.upsert r.vProposalVotes block [] _)[k]? = _
      rw [Map.getElem?_upsert, if_neg (Ne.symm hk)]
    inactive := fun hOff => by
      rw [hOff] at hOn
      cases hOn }

theorem pushPaymentRequestVote (hOn : fCFund = true) :
    RecordsFor fCFund block r (r.pushPaymentRequestVote block hash vote) :=
  { (refl r : RecordsFor fCFund block r r) with
    requests := fun k hk => by
      show (Map.upsert r.vPaymentRequestVotes block [] _)[k]? = _
      rw [Map.getElem?_upsert, if_neg (Ne.symm hk)]
    inactive := fun hOff => by
      rw [hOff] at hOn
      cases hOn }

theorem insertSupport : RecordsFor fCFund block r (r.insertSupport block hash) :=
  { (refl r : RecordsFor fCFund block r r) with
    support := fun k hk => by
      show (Map.upsert r.mapSupport block ∅ _)[k]? = _
      rw [Map.getElem?_upsert, if_neg (Ne.symm hk)] }

theorem insertConsultationVote :
    RecordsFor fCFund block r (r.insertConsultationVote block hash vote) :=
  { (refl r : RecordsFor fCFund block r r) with
    consultations := fun k hk => by
      show (Map.upsert r.mapConsultationVotes block ∅ _)[k]? = _
      rw [Map.getElem?_upsert, if_neg (Ne.symm hk)] }

end RecordsFor

/-- One vote is recorded for the block: on the fund's objects once the fund is deployed, on
consultations once these are. -/
inductive RecordStep (fCFund fDAOConsultations : Bool) (block : UInt256) :
    RecordedVotes → RecordedVotes → Prop
  | proposal (r : RecordedVotes) (hash : UInt256) (vote : Int) (hOn : fCFund = true) :
      RecordStep fCFund fDAOConsultations block r (r.pushProposalVote block hash vote)
  | paymentRequest (r : RecordedVotes) (hash : UInt256) (vote : Int) (hOn : fCFund = true) :
      RecordStep fCFund fDAOConsultations block r (r.pushPaymentRequestVote block hash vote)
  | support (r : RecordedVotes) (hash : UInt256) (hOn : fDAOConsultations = true) :
      RecordStep fCFund fDAOConsultations block r (r.insertSupport block hash)
  | consultation (r : RecordedVotes) (hash : UInt256) (vote : Int)
      (hOn : fDAOConsultations = true) :
      RecordStep fCFund fDAOConsultations block r (r.insertConsultationVote block hash vote)

/-- Votes are recorded for the block, one after the other. -/
abbrev Recording (fCFund fDAOConsultations : Bool) (block : UInt256) :
    RecordedVotes → RecordedVotes → Prop :=
  Relation.ReflTransGen (RecordStep fCFund fDAOConsultations block)

variable {fCFund : Bool} {block : UInt256} {fDAOConsultations : Bool} {r r' : RecordedVotes}
  {ctx : ConnectContext} {tx : CTransaction} {view : CStateView}

theorem Recording.recordsFor (h : Recording fCFund fDAOConsultations block r r') :
    RecordsFor fCFund block r r' := by
  induction h with
  | refl => exact .refl r
  | tail _ hStep ih =>
    refine ih.trans ?_
    cases hStep with
    | proposal hash vote hOn => exact .pushProposalVote _ hash vote hOn
    | paymentRequest hash vote hOn => exact .pushPaymentRequestVote _ hash vote hOn
    | support hash => exact .insertSupport _ hash
    | consultation hash vote => exact .insertConsultationVote _ hash vote

/-- Before consultations are deployed no vote on them is recorded. -/
theorem Recording.undeployed (h : Recording fCFund false block r r') :
    r'.mapSupport = r.mapSupport ∧ r'.mapConsultationVotes = r.mapConsultationVotes := by
  induction h with
  | refl => exact ⟨rfl, rfl⟩
  | tail _ hStep ih =>
    cases hStep with
    | proposal => exact ih
    | paymentRequest => exact ih
    | support _ hOn => cases hOn
    | consultation _ _ hOn => cases hOn

theorem Recording.recordConsultationVote
    (r : RecordedVotes) (hash : UInt256) (vote : Int) (env : Env) (view : CStateView)
    (counts : Map UInt256 Int) (hOn : fDAOConsultations = true) :
    Recording fCFund fDAOConsultations block r
      (recordConsultationVote env block view hash vote (r, counts)).1 := by
  have hRecord : Recording fCFund fDAOConsultations block r
      (r.insertConsultationVote block hash vote) := .single (.consultation r hash vote hOn)
  unfold Electrum.recordConsultationVote
  split
  · exact hRecord
  · split
    · exact .refl
    · split
      · dsimp only
        split
        · exact hRecord
        · exact .refl
      · exact .refl

/-- Whether a step of `ConnectBlock` goes on or rejects the block, its records change as the
relation says; `get` are the records with which it goes on. -/
def Outcome.Rel (R : RecordedVotes → RecordedVotes → Prop) (r : RecordedVotes) {α : Type}
    (get : α → RecordedVotes) : Outcome α → Prop
  | .ok a => R r (get a)
  | .error r' => R r r'

/-- Whether a step of `ConnectBlock` goes on or rejects the block, only the records of the block
change; `get` are the records with which it goes on. -/
def Records (fCFund : Bool) (block : UInt256) (r : RecordedVotes) {α : Type}
    (get : α → RecordedVotes) : Outcome α → Prop
  | .ok a => RecordsFor fCFund block r (get a)
  | .error r' => RecordsFor fCFund block r r'

namespace Outcome.Rel

variable {S : RecordedVotes → RecordedVotes → Prop} {α β : Type} {r : RecordedVotes}
  {get : α → RecordedVotes} {x : Outcome α}

theorem after {s : RecordedVotes}
    (h : Relation.ReflTransGen S r s) (hx : Outcome.Rel (Relation.ReflTransGen S) s get x) :
    Outcome.Rel (Relation.ReflTransGen S) r get x := by
  cases x with
  | error r' => exact Relation.ReflTransGen.trans h hx
  | ok a => exact Relation.ReflTransGen.trans h hx

theorem bind {get' : β → RecordedVotes}
    {f : α → Outcome β} (hx : Outcome.Rel (Relation.ReflTransGen S) r get x)
    (hf : ∀ a, x = .ok a → Outcome.Rel (Relation.ReflTransGen S) (get a) get' (f a)) :
    Outcome.Rel (Relation.ReflTransGen S) r get' (x >>= f) := by
  cases x with
  | error r' => exact hx
  | ok a => exact after hx (hf a rfl)

theorem foldlM {γ : Type} {f : α → γ → Outcome α}
    (hf : ∀ a x, Outcome.Rel (Relation.ReflTransGen S) (get a) get (f a x)) (l : List γ) (a : α) :
    Outcome.Rel (Relation.ReflTransGen S) (get a) get (l.foldlM f a) := by
  induction l generalizing a with
  | nil => exact refl
  | cons x rest ih =>
    exact bind (hf a x) fun b _ => ih b

theorem ensure (st : ConnectState) (check : Bool) :
    Outcome.Rel (Relation.ReflTransGen S) st.recorded ConnectState.recorded (st.ensure check) := by
  cases check with
  | true => exact refl
  | false => exact refl

theorem require (st : ConnectState) (value : Option α) :
    Outcome.Rel (Relation.ReflTransGen S) st.recorded (fun _ => st.recorded)
      (st.require value) := by
  cases value with
  | some a => exact refl
  | none => exact refl

end Outcome.Rel

/-! ## ConnectBlock -/

section Stages

variable (ctx : ConnectContext)

/-- What connecting the block may do to the records. -/
abbrev ConnectContext.Recording : RecordedVotes → RecordedVotes → Prop :=
  Electrum.Recording ctx.fCFund ctx.fDAOConsultations ctx.block.hash

/-- One output records at most one vote, or the block is rejected. -/
theorem takeVote_recording (i : Nat) (voter : List UInt8) (st : ConnectState × Map UInt256 Int)
    (out : CTxOut) :
    Outcome.Rel ctx.Recording st.1.recorded (·.1.recorded) (takeVote ctx i voter st out) := by
  have hSelf : ctx.Recording st.1.recorded st.1.recorded := .refl
  refine .bind (.require st.1 _) fun found _ => ?_
  cases found with
  | none => exact hSelf
  | some found =>
    obtain ⟨hash, vote⟩ := found
    dsimp only
    split
    · exact hSelf
    · split
      · -- the vote goes to the voter's list, or nowhere
        repeat' split
        all_goals exact hSelf
      · split
        · split
          case isTrue hCond =>
            simp only [and_eq_true] at hCond
            exact .single (.proposal _ hash vote hCond.1.1)
          case isFalse =>
            split
            case isTrue hCond =>
              simp only [and_eq_true] at hCond
              exact .single (.paymentRequest _ hash vote hCond.1.1)
            case isFalse =>
              split
              case isTrue hCond =>
                simp only [and_eq_true] at hCond
                exact .single (.support _ hash hCond.1.1)
              case isFalse =>
                split
                case isTrue hCond =>
                  simp only [and_eq_true] at hCond
                  exact Recording.recordConsultationVote _ hash vote _ _ _ hCond.1.1
                case isFalse => exact hSelf
        · exact hSelf

theorem takeVotes_recording (i : Nat) (tx : CTransaction) (st : ConnectState) :
    Outcome.Rel ctx.Recording st.recorded ConnectState.recorded (takeVotes ctx i tx st) := by
  unfold takeVotes
  dsimp only
  split
  · refine .bind (.require st _) fun voter _ => ?_
    have hLoop := Outcome.Rel.foldlM (takeVote_recording ctx i voter) tx.vout (st, ∅)
    exact hLoop.bind fun s _ => refl
  · exact refl

theorem checkDaoTx_recording (tx : CTransaction) (st : ConnectState) :
    Outcome.Rel ctx.Recording st.recorded ConnectState.recorded (checkDaoTx ctx tx st) := by
  unfold checkDaoTx
  repeat' split
  all_goals
    first
      | exact Outcome.Rel.ensure st _
      | exact refl

theorem checkValues_recording (tx : CTransaction) (st : ConnectState) :
    Outcome.Rel ctx.Recording st.recorded ConnectState.recorded (checkValues ctx tx st) := by
  unfold checkValues
  split
  · exact Outcome.Rel.ensure st _
  · refine .bind (.ensure st _) fun st _ => .bind ?_ fun st _ => .ensure st _
    unfold feeOrReward
    split
    · unfold checkCoinStake
      dsimp only
      split
      · exact Outcome.Rel.ensure _ _
      · exact refl
    · exact refl

theorem connectTx_recording (st : ConnectState) (it : CTransaction × Nat) :
    Outcome.Rel ctx.Recording st.recorded ConnectState.recorded (connectTx ctx st it) := by
  refine .bind (takeVotes_recording ctx it.2 it.1 st) fun st _ => ?_
  refine .bind (checkDaoTx_recording ctx it.1 st) fun st _ => ?_
  refine .bind (.ensure st _) fun st _ => ?_
  refine .bind (checkValues_recording ctx it.1 st) fun st _ => ?_
  refine .bind (.require st _) fun view _ => ?_
  refine .bind (.require st _) fun r _ => ?_
  exact refl

/-- The votes of the staker's list are recorded for the block. -/
theorem recordStakerVotes_recording (view : CStateView) (recorded : RecordedVotes) :
    ctx.Recording recorded (recordStakerVotes ctx view recorded) := by
  unfold recordStakerVotes
  split
  · split
    · exact .refl
    · rename_i list _
      rw [Std.ExtTreeMap.foldl_eq_foldl_toList]
      refine foldl_invariant (fun _ (st : RecordedVotes × Map UInt256 Int) =>
        ctx.Recording recorded st.1) list.getList.toList
        (b := (recorded, ∅)) (.refl) ?_
      intro done it rest st _ hP
      refine hP.trans ?_
      unfold recordStakerVote
      dsimp only
      split
      · exact .refl
      · split
        case isTrue hCond =>
          rw [and_eq_true] at hCond
          exact .single (.proposal st.1 it.1 it.2 hCond.1)
        case isFalse =>
          split
          case isTrue hCond =>
            rw [and_eq_true] at hCond
            exact .single (.paymentRequest st.1 it.1 it.2 hCond.1)
          case isFalse =>
            split
            · split
              case isTrue hCond =>
                rw [and_eq_true] at hCond
                exact .single (.support st.1 it.1 hCond.1)
              case isFalse => exact .refl
            · split
              case isTrue hOn =>
                exact Recording.recordConsultationVote st.1 it.1 it.2 _ view st.2 hOn
              case isFalse => exact .refl
  · exact .refl

end Stages

/-- **ConnectBlock.** It records one vote after the other, for its own block and under the
deployments active at the parent. -/
theorem connectBlock_recording (node : Node) (block : CBlock) (pindex : CBlockIndex)
    (pprev : Chain) (fund : Fund) (recorded : RecordedVotes) (view : CStateView) :
    Outcome.Rel (Recording (node.isActive .communityFund pprev)
      (node.isActive .consultations pprev) block.hash) recorded Connected.recorded
      (connectBlock node block pindex pprev fund recorded view) := by
  refine .bind (.ensure ⟨view, fund, recorded, ∅, 0, 0, []⟩ _) fun init hInit => ?_
  obtain ⟨-, rfl⟩ := ConnectState.ensure_ok.mp hInit
  split
  · exact refl
  · refine .bind (.ensure _ _) fun init hInit => ?_
    refine .bind (.ensure _ _) fun init _ => ?_
    refine .bind (.require init _) fun nCoinAge _ => ?_
    refine .bind (.require init _) fun stakerScript _ => ?_
    have hLoop := Outcome.Rel.foldlM (connectTx_recording (connectContext node block pindex pprev
      stakerScript)) block.vtx.zipIdx init
    refine .bind hLoop fun st _ => ?_
    -- the staker's votes are recorded before the last checks
    have hStaker := recordStakerVotes_recording
      (connectContext node block pindex pprev stakerScript) st.view st.recorded
    generalize recordStakerVotes (connectContext node block pindex pprev stakerScript) st.view
      st.recorded = recorded' at hStaker ⊢
    refine .after hStaker ?_
    refine .bind (.require { st with recorded := recorded' } _) fun coinbase _ => ?_
    refine .bind (.require { st with recorded := recorded' } _) fun cb _ => ?_
    refine .bind (.ensure { st with recorded := recorded' } _) fun st' hEnsure => ?_
    obtain ⟨-, rfl⟩ := ConnectState.ensure_ok.mp hEnsure
    exact refl

/-- **ConnectBlock.** It records votes for its own block only. -/
theorem connectBlock_records (node : Node) (block : CBlock) (pindex : CBlockIndex)
    (pprev : Chain) (fund : Fund) (recorded : RecordedVotes) (view : CStateView) :
    Records (node.isActive .communityFund pprev) block.hash recorded Connected.recorded
      (connectBlock node block pindex pprev fund recorded view) := by
  have h := connectBlock_recording node block pindex pprev fund recorded view
  revert h
  cases connectBlock node block pindex pprev fund recorded view with
  | error r' => exact Recording.recordsFor
  | ok r => exact Recording.recordsFor

/-! ## Before the deployment -/

theorem createObject_dormant (hOff : ctx.fCFund = false) {nProposalFee : Int} {view' : CStateView}
    (h : createObject ctx tx nProposalFee view = some view') : SameFund view view' := by
  unfold createObject at h
  simp only [hOff, Bool.false_and, Bool.false_eq_true, if_false] at h
  split at h
  · split at h
    · simp only [bind_eq_bind, bind_eq_some_iff] at h
      obtain ⟨⟨c, as⟩, -, h⟩ := h
      cases h
      obtain ⟨consultations, answers, hAdd⟩ := addConsultationWithAnswers_frame view c as
      rw [hAdd]
      exact ⟨rfl, rfl⟩
    · cases h
      exact ⟨rfl, rfl⟩
  · split at h
    · split at h
      · simp only [bind_eq_bind, bind_eq_some_iff] at h
        obtain ⟨a, -, h⟩ := h
        split at h
        · cases h
          obtain ⟨consultations, answers, hAdd⟩ := addConsultationAnswer_frame view a
          rw [hAdd]
          exact ⟨rfl, rfl⟩
        · cases h
          exact ⟨rfl, rfl⟩
      · cases h
        exact ⟨rfl, rfl⟩
    · cases h
      exact ⟨rfl, rfl⟩

theorem connectTx_dormant (hOff : ctx.fCFund = false) {st st' : ConnectState} {i : Nat}
    (h : connectTx ctx st (tx, i) = .ok st') : SameFund st.view st'.view := by
  obtain ⟨st1, st2, view1, view2, undo, hVotes, -, hValues, hCreate, hCoins, rfl⟩ :=
    connectTx_ok h
  obtain ⟨lists, recorded, votes, rfl⟩ := takeVotes_ok hVotes
  rw [(checkValues_kept hValues).1] at hCreate
  have hFrame : view2 = { view1 with coins := view2.coins } := updateCoins_frame hCoins
  have hCreated := createObject_dormant hOff hCreate
  rw [hFrame]
  exact ⟨hCreated.proposals, hCreated.requests⟩

/-- **Before the deployment.** A block creates no proposal and no payment request. -/
theorem ConnectRun.dormant {node : Node} {block : CBlock} {pindex : CBlockIndex} {pprev : Chain}
    {fund : Fund} {recorded : RecordedVotes} {r : Connected}
    (run : ConnectRun node block pindex pprev fund recorded view r)
    (hOff : node.isActive .communityFund pprev = false) : SameFund view run.st.view := by
  refine foldlM_except_invariant (fun _ (st : ConnectState) => SameFund view st.view)
    block.vtx.zipIdx ⟨rfl, rfl⟩ ?_ run.loop
  intro done it rest st st' _ hP hStep
  exact hP.trans (connectTx_dormant hOff hStep)

end Electrum
