import Electrum.Dao.Metadata
import Electrum.Validation.Transaction

/-!
# Cold staking in `CheckProofOfStake`

A cold staking output can be staked by one key and spent by another; the staking key must not
be able to move the coins elsewhere.  `CheckProofOfStake` enforces this in two ways.  With the
pool fee every input is compared with the kernel as soon as a cold staking script has been seen,
and the kernel's script must get back at least the value of the inputs.  Without it only the
kernel is looked at, and every output up to the last but one must pay the kernel's script.

The kernel hash, the signature and the timestamps are part of `Node.checkProof`.

Main results:
* `scanInputs_cold`, `scanInputs_plain` — what the loop over the inputs establishes
* `coldStake_pool` — with the pool fee the coins stay with their script
-/

namespace Electrum

/-- A cold staking script of either version. -/
def CScript.isAnyColdStaking (s : CScript) : Bool :=
  CScript.isColdStaking s || CScript.isColdStakingv2 s

/-- The script of the output that an input spends, in the transaction that `GetTransaction`
finds. -/
def spentScript (node : Node) (txin : CTxIn) : Option CScript :=
  (node.getTransaction txin.prevout.hash).bind fun txPrev =>
    (txPrev.vout[txin.prevout.n]?).map (·.scriptPubKey)

/-- The loop over the inputs after the kernel; `none` is an error. -/
def scanInputs (node : Node) (kernelScript : CScript) : List CTxIn → Bool → Option Bool
  | [], fColdStaking => some fColdStaking
  | txin :: rest, fColdStaking =>
    (spentScript node txin).bind fun script =>
      let fColdStaking := fColdStaking || CScript.isAnyColdStaking script
      if fColdStaking && script != kernelScript then none
      else scanInputs node kernelScript rest fColdStaking

/-- The value that outputs pay to a script. -/
def valueTo (script : CScript) (vout : List CTxOut) : Int :=
  ((vout.filter fun out => out.scriptPubKey == script).map (·.nValue)).sum

/-- `CheckProofOfStake`, up to the kernel hash and the signature. -/
def checkProofOfStake (node : Node) (pindexPrev : Chain) (view : CStateView) (tx : CTransaction) :
    Bool :=
  match tx.vin with
  | [] => false
  | txin :: rest =>
    tx.isCoinStake &&
    match spentScript node txin with
    | none => false
    | some kernelScript =>
      let fPoolEnabled := node.isActive .poolFee pindexPrev
      let fColdStaking := CScript.isAnyColdStaking kernelScript
      match if fPoolEnabled then scanInputs node kernelScript rest fColdStaking
        else some fColdStaking with
      | none => false
      | some false => true
      | some true =>
        -- the first output is empty; without the pool fee the last one is not looked at
        if fPoolEnabled then
          decide (view.getValueIn tx ≤ valueTo kernelScript (tx.vout.drop 1))
        else (tx.vout.dropLast.drop 1).all fun out => out.scriptPubKey == kernelScript

section Scan

variable {node : Node} {kernelScript : CScript} {vin : List CTxIn} {fColdStaking : Bool}

/-- Once a cold staking script was seen every input has the kernel's script. -/
theorem scanInputs_cold (h : scanInputs node kernelScript vin true = some fColdStaking) :
    fColdStaking = true ∧ ∀ txin ∈ vin, spentScript node txin = some kernelScript := by
  induction vin with
  | nil =>
    cases h
    exact ⟨rfl, fun txin hMem => by cases hMem⟩
  | cons txin rest ih =>
    rw [scanInputs, Option.bind_eq_some_iff] at h
    obtain ⟨script, hScript, hRest⟩ := h
    simp only [Bool.true_or, Bool.true_and] at hRest
    split at hRest
    case isTrue => cases hRest
    case isFalse hSame =>
      have hEq : script = kernelScript := by simpa using hSame
      obtain ⟨hFlag, hAll⟩ := ih hRest
      refine ⟨hFlag, ?_⟩
      rintro txin' (_ | ⟨_, hMem⟩)
      · rw [hScript, hEq]
      · exact hAll txin' hMem

/-- With a kernel that is no cold staking output no input is one: the first one would have to
be equal to the kernel. -/
theorem scanInputs_plain (hKernel : CScript.isAnyColdStaking kernelScript = false)
    (h : scanInputs node kernelScript vin false = some fColdStaking) :
    ∀ txin ∈ vin, ∀ script, spentScript node txin = some script →
      CScript.isAnyColdStaking script = false := by
  induction vin with
  | nil => exact fun txin hMem => by cases hMem
  | cons txin rest ih =>
    rw [scanInputs, Option.bind_eq_some_iff] at h
    obtain ⟨script, hScript, hRest⟩ := h
    simp only [Bool.false_or] at hRest
    -- a cold staking input differs from the kernel
    have hPlain : CScript.isAnyColdStaking script = false := by
      by_contra hCold
      rw [Bool.not_eq_false] at hCold
      have hne : script ≠ kernelScript := by
        intro hEq
        rw [hEq, hKernel] at hCold
        cases hCold
      rw [hCold, if_pos (by simpa using hne)] at hRest
      cases hRest
    rw [hPlain] at hRest
    rintro txin' (_ | ⟨_, hMem⟩) script' hScript'
    · rw [hScript] at hScript'
      cases hScript'
      exact hPlain
    · exact ih hRest txin' hMem script' hScript'

end Scan

/-- The first output of a coinstake is empty. -/
theorem valueTo_drop_one {tx : CTransaction} (h : tx.isCoinStake = true) (script : CScript) :
    valueTo script (tx.vout.drop 1) = valueTo script tx.vout := by
  unfold CTransaction.isCoinStake at h
  split at h
  case h_2 => cases h
  case h_1 i _ first second rest _ hVout =>
    rw [Bool.and_eq_true, CTxOut.isEmpty, Bool.and_eq_true, beq_iff_eq] at h
    rw [hVout, List.drop_one, List.tail_cons]
    unfold valueTo
    rw [List.filter_cons (x := first)]
    split
    case isTrue => rw [List.map_cons, List.sum_cons, h.2.1, Int.zero_add]
    case isFalse => rfl

/-- **Cold staking with the pool fee.** A coinstake that spends a cold staking output has inputs
of one script only, the kernel's, and pays that script at least what it spends. -/
theorem coldStake_pool {node : Node} {pindexPrev : Chain} {view : CStateView} {tx : CTransaction}
    (hPool : node.isActive .poolFee pindexPrev = true)
    (hAccepted : checkProofOfStake node pindexPrev view tx = true)
    (hCold : ∃ txin ∈ tx.vin, (spentScript node txin).any CScript.isAnyColdStaking = true) :
    ∃ kernel kernelScript, tx.vin.head? = some kernel ∧
      spentScript node kernel = some kernelScript ∧
      (∀ txin ∈ tx.vin, spentScript node txin = some kernelScript) ∧
      view.getValueIn tx ≤ valueTo kernelScript tx.vout := by
  obtain ⟨cold, hMem, hColdScript⟩ := hCold
  obtain ⟨coldScript, hSpent, hColdScript⟩ := (Option.any_eq_true _ _).mp hColdScript
  unfold checkProofOfStake at hAccepted
  split at hAccepted
  case h_1 => cases hAccepted
  case h_2 kernel rest hVin =>
    rw [Bool.and_eq_true] at hAccepted
    obtain ⟨hStake, hAccepted⟩ := hAccepted
    split at hAccepted
    case h_1 => cases hAccepted
    case h_2 kernelScript hKernel =>
      refine ⟨kernel, kernelScript, by rw [hVin]; rfl, hKernel, ?_⟩
      rw [hVin] at hMem ⊢
      dsimp only at hAccepted
      rw [hPool] at hAccepted
      cases hKind : CScript.isAnyColdStaking kernelScript with
      | true =>
        rw [hKind] at hAccepted
        split at hAccepted
        case h_1 => cases hAccepted
        case h_2 hScan => cases (scanInputs_cold hScan).1
        case h_3 hScan =>
          rw [if_pos rfl, decide_eq_true_eq, valueTo_drop_one hStake] at hAccepted
          refine ⟨?_, hAccepted⟩
          rintro txin (_ | ⟨_, hRest⟩)
          · exact hKernel
          · exact (scanInputs_cold hScan).2 txin hRest
      | false =>
        -- neither the kernel nor another input can be the cold staking output
        exfalso
        rw [hKind] at hAccepted
        have hNone : ∀ fColdStaking, scanInputs node kernelScript rest false = some fColdStaking →
            False := by
          intro fColdStaking hScan
          rcases List.mem_cons.mp hMem with rfl | hRest
          · rw [hKernel] at hSpent
            cases hSpent
            rw [hKind] at hColdScript
            cases hColdScript
          · have hPlain := scanInputs_plain hKind hScan cold hRest coldScript hSpent
            rw [hPlain] at hColdScript
            cases hColdScript
        split at hAccepted
        case h_1 => cases hAccepted
        case h_2 hScan => exact hNone _ hScan
        case h_3 hScan => exact hNone _ hScan

/-- A cold staking script. -/
def coldScript : CScript :=
  [OP_COINSTAKE, OP_IF, OP_DUP, OP_HASH160, 0x14] ++ List.replicate 20 1 ++
    [OP_EQUALVERIFY, OP_CHECKSIG, OP_ELSE, OP_DUP, OP_HASH160, 0x14] ++ List.replicate 20 2 ++
    [OP_EQUALVERIFY, OP_CHECKSIG, OP_ENDIF]

/-- Two cold staking outputs of one script. -/
def coldFunding : CTransaction :=
  ⟨1, 1, 0, [⟨⟨7, 0⟩⟩], [⟨600, coldScript⟩, ⟨400, coldScript⟩], ""⟩

/-- The coins of `coldFunding`. -/
def coldView : CStateView :=
  { CStateView.empty with coins := (∅ : Map UInt256 CCoins).insert 1 (.fromTx coldFunding 5) }

/-- A coinstake that spends both and pays a pool. -/
def coldCoinstake : CTransaction :=
  ⟨2, 1, 0, [⟨⟨1, 0⟩⟩, ⟨⟨1, 1⟩⟩], [⟨0, []⟩, ⟨1010, coldScript⟩, ⟨20, [0x51]⟩], ""⟩

/-- A node that knows `coldFunding`, with every deployment active. -/
def coldNode : Node := .trusting (fun _ _ => true) ∅ [coldFunding]

theorem coldStake_pool_two_inputs : ∃ kernel kernelScript,
    coldCoinstake.vin.head? = some kernel ∧ spentScript coldNode kernel = some kernelScript ∧
    (∀ txin ∈ coldCoinstake.vin, spentScript coldNode txin = some kernelScript) ∧
    coldView.getValueIn coldCoinstake ≤ valueTo kernelScript coldCoinstake.vout := by
  have hPool : coldNode.isActive .poolFee [] = true := rfl
  exact coldStake_pool hPool (by decide +kernel) ⟨⟨⟨1, 0⟩⟩, by decide, by decide +kernel⟩

end Electrum
