import Electrum.Validation.ConnectFrame
import Electrum.Validation.DisconnectBlock

/-!
# What DisconnectBlock leaves alone

Removing objects, restoring coins and taking votes off the counters touch neither the voters'
lists nor the parameters; these lose the block's height at the end.  The undo data that
`ConnectBlock` leaves behind is what `DisconnectBlock` asks for, so that it does not fail.

Main results:
* `disconnectBlock_lists` — the lists and the parameters after a block is disconnected
* `disconnectBlock_connected` — a connected block can be disconnected
-/

namespace Electrum

open Option

/-- The voters' lists and the parameters stay. -/
structure KeepsLists (view view' : CStateView) : Prop where
  votes : view'.votes = view.votes
  consensus : view'.consensus = view.consensus

theorem KeepsLists.refl (view : CStateView) : KeepsLists view view := ⟨rfl, rfl⟩

variable {u v w view : CStateView} {it : CTransaction × Option (List CTxInUndo)}

theorem KeepsLists.trans (h : KeepsLists u v) (h' : KeepsLists v w) : KeepsLists u w :=
  ⟨h'.votes.trans h.votes, h'.consensus.trans h.consensus⟩

/-- The coins stay as well. -/
structure KeepsCoins (view view' : CStateView) : Prop extends KeepsLists view view' where
  coins : view'.coins = view.coins

theorem KeepsCoins.refl (view : CStateView) : KeepsCoins view view := ⟨.refl view, rfl⟩

theorem KeepsCoins.trans (h : KeepsCoins u v) (h' : KeepsCoins v w) : KeepsCoins u w :=
  ⟨h.toKeepsLists.trans h'.toKeepsLists, h'.coins.trans h.coins⟩

/-- A loop keeps what each turn keeps; `view` picks the view out of the loop's state. -/
theorem KeepsCoins.foldl {σ α : Type} (view : σ → CStateView) {f : σ → α → σ}
    (hStep : ∀ s a, KeepsCoins (view s) (view (f s a))) (l : List α) (s : σ) :
    KeepsCoins (view s) (view (l.foldl f s)) := by
  refine foldl_invariant (fun _ s' => KeepsCoins (view s) (view s')) l (b := s) (f := f) (.refl _) ?_
  intro done a rest s' _ hP
  exact hP.trans (hStep s' a)

/-! ## Objects and counters -/

theorem removeConsultationAnswer_keeps (view : CStateView) (cid : UInt256) :
    KeepsCoins view (view.removeConsultationAnswer cid) := by
  unfold CStateView.removeConsultationAnswer
  split <;> exact ⟨⟨rfl, rfl⟩, rfl⟩

theorem removeConsultation_keeps (view : CStateView) (cid : UInt256) :
    KeepsCoins view (view.removeConsultation cid) := by
  unfold CStateView.removeConsultation
  split
  · exact .refl view
  · have hAnswers := KeepsCoins.foldl id removeConsultationAnswer_keeps
    exact (hAnswers _ view).trans ⟨⟨rfl, rfl⟩, rfl⟩

theorem removeObject_keeps (node : Node) (blockhash : UInt256) (fCFund fDAOConsultations : Bool)
    (tx : CTransaction) (view : CStateView) :
    KeepsCoins view (removeObject node blockhash fCFund fDAOConsultations tx view) := by
  unfold removeObject
  split
  · exact ⟨⟨rfl, rfl⟩, rfl⟩
  · split
    · exact ⟨⟨rfl, rfl⟩, rfl⟩
    · split
      · exact removeConsultation_keeps view tx.hash
      · split
        · split
          · exact removeConsultationAnswer_keeps view _
          · exact .refl view
        · exact .refl view

theorem undoProposalVote_keeps (st : CStateView × List UInt256) (it : UInt256 × Int) :
    KeepsCoins st.1 (undoProposalVote st it).1 := by
  unfold undoProposalVote
  split
  · exact .refl _
  · split <;> exact ⟨⟨rfl, rfl⟩, rfl⟩

theorem undoPaymentRequestVote_keeps (st : CStateView × List UInt256) (it : UInt256 × Int) :
    KeepsCoins st.1 (undoPaymentRequestVote st it).1 := by
  unfold undoPaymentRequestVote
  split
  · exact .refl _
  · split <;> exact ⟨⟨rfl, rfl⟩, rfl⟩

theorem undoSupport_keeps (st : CStateView × List UInt256) (hash : UInt256) :
    KeepsCoins st.1 (undoSupport st hash).1 := by
  unfold undoSupport
  split
  · exact .refl _
  · split
    · exact ⟨⟨rfl, rfl⟩, rfl⟩
    · split <;> exact ⟨⟨rfl, rfl⟩, rfl⟩

theorem undoConsultationVote_keeps (view : CStateView) (hash : UInt256) (vote : Nat) :
    KeepsCoins view (undoConsultationVote view hash vote) := by
  unfold undoConsultationVote
  split
  · exact ⟨⟨rfl, rfl⟩, rfl⟩
  · split <;> exact ⟨⟨rfl, rfl⟩, rfl⟩

theorem undoRecordedVotes_keeps (recorded : RecordedVotes) (blockhash : UInt256)
    (view : CStateView) : KeepsCoins view (undoRecordedVotes recorded blockhash view) := by
  unfold undoRecordedVotes
  -- one loop after the other, from the last to the first
  rw [Std.ExtTreeMap.foldl_eq_foldl_toList]
  have hVotes := fun (v : CStateView) (it : UInt256 × Nat) =>
    undoConsultationVote_keeps v it.1 it.2
  refine KeepsCoins.trans ?_ (KeepsCoins.foldl id hVotes _ _)
  refine KeepsCoins.trans ?_ (KeepsCoins.foldl Prod.fst undoSupport_keeps _ _)
  refine KeepsCoins.trans ?_ (KeepsCoins.foldl Prod.fst undoPaymentRequestVote_keeps _ _)
  exact KeepsCoins.foldl Prod.fst undoProposalVote_keeps _ (view, [])

/-! ## Coins -/

/-- Restoring coins leaves all objects alone. -/
theorem restoreInputs_frame (vin : List CTxIn) (vprevout : List CTxInUndo)
    (st : Bool × CStateView) : (restoreInputs vin vprevout st).2 =
      { st.2 with coins := (restoreInputs vin vprevout st).2.coins } := by
  unfold restoreInputs
  induction vin.zip vprevout with
  | nil => rfl
  | cons it rest ih =>
    rw [List.foldr_cons]
    rw [ih]
    rfl

variable {nHeight : Nat}

theorem disconnectTx_frame
    {st st' : Bool × CStateView} (h : disconnectTx nHeight it st = some st') :
    st'.2 = { st.2 with coins := st'.2.coins } := by
  unfold disconnectTx at h
  split at h
  case h_1 =>
    cases h
    rfl
  case h_2 vprevout _ =>
    split at h
    · cases h
    · cases h
      rw [restoreInputs_frame]
      rfl

/-- `ApplyTxInUndo` for every input looks at the coins alone. -/
theorem restoreInputs_withCoins (vin : List CTxIn) (vprevout : List CTxInUndo)
    (st : Bool × CStateView) (other : CStateView) :
    restoreInputs vin vprevout (st.1, { other with coins := st.2.coins }) =
      ((restoreInputs vin vprevout st).1,
        { other with coins := (restoreInputs vin vprevout st).2.coins }) := by
  unfold restoreInputs
  induction vin.zip vprevout with
  | nil => rfl
  | cons it rest ih =>
    rw [List.foldr_cons, ih]
    rfl

/-- Disconnecting a transaction looks at the coins alone. -/
theorem disconnectTx_withCoins (nHeight : Nat) (it : CTransaction × Option (List CTxInUndo))
    (st : Bool × CStateView) (other : CStateView) :
    disconnectTx nHeight it (st.1, { other with coins := st.2.coins }) =
      (disconnectTx nHeight it st).map fun s => (s.1, { other with coins := s.2.coins }) := by
  unfold disconnectTx
  split
  · rfl
  · split
    · rfl
    · exact congrArg some (restoreInputs_withCoins _ _
        (st.1 && (removeOutputs nHeight it.1 st.2).1, (removeOutputs nHeight it.1 st.2).2) other)

/-- The undo data of a transaction has one entry for each input. -/
def UndoFits (it : CTransaction × Option (List CTxInUndo)) : Prop :=
  ∀ vprevout, it.2 = some vprevout → vprevout.length = it.1.vin.length

theorem disconnectTx_fits (nHeight : Nat) (hFits : UndoFits it) (st : Bool × CStateView) :
    ∃ st', disconnectTx nHeight it st = some st' := by
  unfold disconnectTx
  split
  · exact ⟨_, rfl⟩
  case h_2 vprevout hUndo =>
    rw [if_neg (not_not_intro (hFits vprevout hUndo))]
    exact ⟨_, rfl⟩

/-! ## The block -/

theorem clearVotes_frame (nHeight : Nat) (view : CStateView) :
    clearVotes nHeight view = { view with votes := (clearVotes nHeight view).votes } := by
  refine foldl_invariant (fun _ (v : CStateView) => v = { view with votes := v.votes })
    view.votes.keys (b := view) rfl ?_
  intro done voter rest v _ hP
  rw [hP]
  rfl

theorem clearParameters_frame (nHeight : Nat) (view : CStateView) : clearParameters nHeight view =
      { view with consensus := (clearParameters nHeight view).consensus } := by
  refine foldl_invariant (fun _ (v : CStateView) => v = { view with consensus := v.consensus })
    (List.range MAX_CONSENSUS_PARAMS) (b := view) rfl ?_
  intro done i rest v _ hP
  rw [hP]
  rfl

theorem clearVotes_coins (nHeight : Nat) (view : CStateView) :
    (clearVotes nHeight view).coins = view.coins := by
  rw [clearVotes_frame]

theorem clearParameters_coins (nHeight : Nat) (view : CStateView) :
    (clearParameters nHeight view).coins = view.coins := by
  rw [clearParameters_frame]

section Loop

variable {node : Node} {block : CBlock} {pindex : CBlockIndex} {pprev : Chain}

/-- One transaction of a block is taken back. -/
def disconnectStep (node : Node) (block : CBlock) (pindex : CBlockIndex) (pprev : Chain)
    (it : CTransaction × Option (List CTxInUndo)) (st : Bool × CStateView) :
    Option (Bool × CStateView) :=
  disconnectTx pindex.nHeight it (st.1, removeObject node block.hash
    (node.isActive .communityFund pprev) (node.isActive .consultations pprev) it.1 st.2)

variable {l : List (CTransaction × Option (List CTxInUndo))} {st st' : Bool × CStateView}
  {fClean : Bool} {view' : CStateView}

theorem disconnectSteps_keeps
    (h : l.foldrM (disconnectStep node block pindex pprev) st = some st') :
    KeepsLists st.2 st'.2 := by
  induction l generalizing st' with
  | nil =>
    cases h
    exact .refl _
  | cons it rest ih =>
    rw [List.foldrM_cons, bind_eq_bind, bind_eq_some_iff] at h
    obtain ⟨mid, hRest, hStep⟩ := h
    have hRemoved := removeObject_keeps node block.hash (node.isActive .communityFund pprev)
      (node.isActive .consultations pprev) it.1 mid.2
    refine (ih hRest).trans (hRemoved.toKeepsLists.trans ?_)
    rw [disconnectTx_frame hStep]
    exact ⟨rfl, rfl⟩

/-- The coins change as without objects. -/
theorem disconnectSteps_coins
    (h : l.foldrM (disconnectStep node block pindex pprev) st = some st') :
    ∃ view', l.foldrM (disconnectTx pindex.nHeight) st = some (st'.1, view') ∧
      view'.coins = st'.2.coins := by
  induction l generalizing st' with
  | nil =>
    cases h
    exact ⟨st.2, rfl, rfl⟩
  | cons it rest ih =>
    rw [List.foldrM_cons, bind_eq_bind, bind_eq_some_iff] at h
    obtain ⟨mid, hRest, hStep⟩ := h
    obtain ⟨view', hCoins, hSame⟩ := ih hRest
    have hRemoved := removeObject_keeps node block.hash (node.isActive .communityFund pprev)
      (node.isActive .consultations pprev) it.1 mid.2
    have hTx := disconnectTx_withCoins pindex.nHeight it (mid.1, removeObject node block.hash
      (node.isActive .communityFund pprev) (node.isActive .consultations pprev) it.1 mid.2) view'
    rw [hRemoved.coins, ← hSame] at hTx
    refine ⟨{ view' with coins := st'.2.coins }, ?_, rfl⟩
    rw [List.foldrM_cons, hCoins]
    refine hTx.trans ?_
    unfold disconnectStep at hStep
    rw [hStep]
    rfl

variable (node block pindex pprev) in
theorem disconnectSteps_fits (hFits : ∀ it ∈ l, UndoFits it) (st : Bool × CStateView) :
    ∃ st', l.foldrM (disconnectStep node block pindex pprev) st = some st' := by
  induction l with
  | nil => exact ⟨st, rfl⟩
  | cons it rest ih =>
    obtain ⟨hIt, hRest⟩ := List.forall_mem_cons.mp hFits
    obtain ⟨mid, hMid⟩ := ih hRest
    obtain ⟨st', hStep⟩ := disconnectTx_fits pindex.nHeight hIt
      (mid.1, removeObject node block.hash (node.isActive .communityFund pprev)
        (node.isActive .consultations pprev) it.1 mid.2)
    refine ⟨st', ?_⟩
    rw [List.foldrM_cons, hMid]
    exact hStep

variable {recorded : RecordedVotes} {vtxundo : List (List CTxInUndo)} {view : CStateView}

/-- **Lists and parameters.** Nothing touches them before they lose the block's height. -/
theorem disconnectBlock_lists
    (h : disconnectBlock node block pindex pprev recorded vtxundo view = some (fClean, view')) :
    ∃ mid, KeepsLists view mid ∧ view' = clearParameters pindex.nHeight
      (if clearsVotes node block pindex pprev then clearVotes pindex.nHeight mid else mid) := by
  dsimp only [disconnectBlock] at h
  split at h
  · cases h
  · rw [bind_eq_bind, bind_eq_some_iff] at h
    obtain ⟨⟨fClean', v⟩, hLoop, h⟩ := h
    cases h
    exact ⟨_, (disconnectSteps_keeps hLoop).trans
      (undoRecordedVotes_keeps recorded block.hash v).toKeepsLists, rfl⟩

/-- **Coins.** `DisconnectBlock` changes them as its coin part does. -/
theorem disconnectBlock_coins
    (h : disconnectBlock node block pindex pprev recorded vtxundo view = some (fClean, view')) :
    ∃ v, disconnectCoins pindex.nHeight block.vtx vtxundo view = some (fClean, v) ∧
      v.coins = view'.coins := by
  dsimp only [disconnectBlock] at h
  unfold disconnectCoins
  split at h
  · cases h
  case isFalse hLength =>
    rw [bind_eq_bind, bind_eq_some_iff] at h
    obtain ⟨⟨fClean', v⟩, hLoop, h⟩ := h
    cases h
    obtain ⟨v', hCoins, hSame⟩ := disconnectSteps_coins hLoop
    refine ⟨v', by rw [if_neg hLength]; exact hCoins, ?_⟩
    have hVotes := (undoRecordedVotes_keeps recorded block.hash v).coins
    rw [clearParameters_coins, hSame, ← hVotes]
    split
    · exact (clearVotes_coins _ _).symm
    · rfl

/-- With undo data of the right shape `DisconnectBlock` does not fail. -/
theorem disconnectBlock_fits (hLength : vtxundo.length + 1 = block.vtx.length)
    (hFits : ∀ it ∈ block.vtx.zip (none :: vtxundo.map some), UndoFits it) :
    ∃ r, disconnectBlock node block pindex pprev recorded vtxundo view = some r := by
  obtain ⟨st', hLoop⟩ := disconnectSteps_fits node block pindex pprev hFits (true, view)
  dsimp only [disconnectBlock]
  rw [if_neg (not_not_intro hLength)]
  unfold disconnectStep at hLoop
  rw [hLoop]
  exact ⟨_, rfl⟩

end Loop

/-! ## The undo data of a connected block -/

/-- The undo data of a transaction has one entry for each input. -/
theorem updateCoins_undo_length {tx : CTransaction}
    {r : CStateView × List CTxInUndo} (hOther : tx.isCoinBase = false)
    (h : updateCoins view tx nHeight = some r) : r.2.length = tx.vin.length := by
  unfold updateCoins at h
  rw [hOther, map_eq_some_iff] at h
  obtain ⟨st, hSt, rfl⟩ := h
  refine foldlM_option_invariant
    (fun done (s : CStateView × List CTxInUndo) => s.2.length = done.length)
    tx.vin (b := (view, [])) (r := st) rfl ?_ hSt
  intro done txin rest s s' _ hs hStep
  unfold spendInput at hStep
  split at hStep
  · cases hStep
    simp [hs]
  · cases hStep

theorem connectCoins_concat (nHeight : Nat) (vtx : List CTransaction) (tx : CTransaction)
    (view : CStateView) :
    connectCoins nHeight (vtx ++ [tx]) view = (connectCoins nHeight vtx view).bind fun r =>
      (updateCoins r.1 tx nHeight).map fun r' => (r'.1, r.2 ++ [r'.2]) := by
  induction vtx generalizing view with
  | nil =>
    rw [List.nil_append, connectCoins, connectCoins, bind_some]
    cases updateCoins view tx nHeight <;> rfl
  | cons first rest ih =>
    rw [List.cons_append, connectCoins, connectCoins]
    cases updateCoins view first nHeight with
    | none => rfl
    | some r =>
      rw [bind_some, bind_some, ih]
      cases connectCoins nHeight rest r.1 with
      | none => rfl
      | some r' =>
        rw [bind_some, map_map]
        rfl

theorem connectCoins_undo_length {vtx : List CTransaction} {view' : CStateView}
    {undos : List (List CTxInUndo)} (h : connectCoins nHeight vtx view = some (view', undos)) :
    List.Forall₂ (fun (tx : CTransaction) (undo : List CTxInUndo) =>
      tx.isCoinBase = false → undo.length = tx.vin.length) vtx undos := by
  induction vtx generalizing view undos with
  | nil =>
    cases h
    exact .nil
  | cons tx rest ih =>
    rw [connectCoins, bind_eq_some_iff] at h
    obtain ⟨r, hTx, h⟩ := h
    rw [map_eq_some_iff] at h
    obtain ⟨⟨view2, undos'⟩, hRest, hEq⟩ := h
    cases hEq
    exact .cons (fun hOther => updateCoins_undo_length hOther hTx) (ih hRest)

section Connected

variable {node : Node} {block : CBlock} {pindex : CBlockIndex} {pprev : Chain} {fund : Fund}
  {recorded : RecordedVotes} {view : CStateView} {r : Connected}

/-- **The coins of a connected block.** `ConnectBlock` runs `UpdateCoins` for each transaction, and
keeps the undo data of all but the first. -/
theorem ConnectRun.connectCoins (run : ConnectRun node block pindex pprev fund recorded view r) :
    ∃ view' undos, connectCoins pindex.nHeight block.vtx view = some (view', undos) ∧
      view'.coins = run.st.view.coins ∧ r.vtxundo = undos.tail := by
  have hLoop := foldlM_except_invariant
    (fun done (st : ConnectState) => ∃ view' undos,
      Electrum.connectCoins pindex.nHeight (done.map Prod.fst) view = some (view', undos) ∧
      undos.length = done.length ∧ view'.coins = st.view.coins ∧ st.vtxundo = undos.tail)
    block.vtx.zipIdx (b := .initial fund recorded view) (r := run.st)
    ⟨view, [], rfl, rfl, rfl, rfl⟩ ?_ run.loop
  · rw [List.zipIdx_map_fst] at hLoop
    obtain ⟨view', undos, hCoins, -, hSame, hUndo⟩ := hLoop
    exact ⟨view', undos, hCoins, hSame, (congrArg Connected.vtxundo run.result).trans hUndo⟩
  · rintro done ⟨tx, i⟩ rest st st' hl ⟨view', undos, hCoins, hLength, hSame, hUndo⟩ hStep
    obtain ⟨-, undo, hUpdate, hUndo'⟩ := connectTx_coins hStep
    have hTx : updateCoins view' tx pindex.nHeight =
        some ({ view' with coins := st'.view.coins }, undo) := updateCoins_of_coins hSame hUpdate
    refine ⟨{ view' with coins := st'.view.coins }, undos ++ [undo], ?_,
      by rw [List.length_append, List.length_append, hLength]; rfl, rfl, ?_⟩
    · rw [List.map_append, List.map_singleton, connectCoins_concat, hCoins, bind_some, hTx]
      rfl
    · -- the position of the transaction tells whether it is the first
      have hAt : block.vtx.zipIdx[done.length]? = some (tx, i) := by
        rw [hl]
        simp
      rw [List.getElem?_zipIdx, map_eq_some_iff] at hAt
      obtain ⟨tx', -, hPair⟩ := hAt
      have hPos : done.length = i := by
        rw [← (Prod.mk.inj hPair).2, Nat.zero_add]
      rw [hUndo', hUndo]
      cases undos with
      | nil =>
        rw [if_pos (by rw [← hPos, ← hLength]; rfl)]
        rfl
      | cons first others =>
        rw [if_neg (by rw [← hPos, ← hLength]; simp)]
        rfl

/-- The undo data of a block: one list for each transaction after the coinbase. -/
theorem ConnectRun.undo_fits (run : ConnectRun node block pindex pprev fund recorded view r)
    (hOthers : ∀ tx ∈ block.vtx.tail, tx.isCoinBase = false) :
    List.Forall₂ (fun (tx : CTransaction) (undo : List CTxInUndo) => undo.length = tx.vin.length)
      block.vtx.tail r.vtxundo := by
  obtain ⟨view', undos, hCoins, -, hUndo⟩ := run.connectCoins
  rw [hUndo]
  have hAll := connectCoins_undo_length hCoins
  generalize block.vtx = vtx at hAll hOthers
  cases hAll with
  | nil => exact .nil
  | cons _ hRest =>
    rw [List.forall₂_iff_zip] at hRest ⊢
    exact ⟨hRest.1, fun hMem => hRest.2 hMem (hOthers _ (List.of_mem_zip hMem).1)⟩

/-- **A connected block can be disconnected.** -/
theorem disconnectBlock_connected
    (hConnect : connectBlock node block pindex pprev fund recorded view = .ok r)
    (hGenesis : block.hash ≠ node.params.genesis.hash) (votes : RecordedVotes)
    (view' : CStateView) :
    ∃ d, disconnectBlock node block pindex pprev votes r.vtxundo view' = some d := by
  obtain ⟨hCheck, hRest⟩ := connectBlock_ok hConnect
  obtain ⟨run⟩ := (hRest.resolve_left fun h => hGenesis h.1).2
  obtain ⟨coinbase, rest, hVtx, -, -, hOthers, -⟩ := checkBlock_vtx hCheck
  have hUndo := run.undo_fits (by
    rw [hVtx]
    exact fun tx hTx => (hOthers tx hTx).2)
  rw [hVtx, List.tail_cons] at hUndo
  apply disconnectBlock_fits
  · rw [hVtx, List.length_cons, hUndo.length_eq]
  · rw [hVtx, List.zip_cons_cons, List.forall_mem_cons]
    refine ⟨(fun _ h => nomatch h), fun it hIt vprevout hPrev => ?_⟩
    rw [List.zip_map_right, List.mem_map] at hIt
    obtain ⟨⟨tx, undo⟩, hMem, rfl⟩ := hIt
    obtain rfl : undo = vprevout := some.inj hPrev
    exact (List.forall₂_iff_zip.mp hUndo).2 hMem

end Connected

end Electrum
