import Electrum.Lib.SkipTree
import Electrum.Lib.Memo

/-!
# Version bits

The tree of block headers (`CBlockIndex`, its skip pointers and its median times) and the state
machine that decides, period by period, whether a deployment is active
(`AbstractThresholdConditionChecker`).

Main results:
* `BlockTree.getAncestor_eq_back` — skip pointers lead where the parents lead
* `getStateFor_eq_plainState` — the cache makes no difference to a state
* `plainState_final_iff` — when a deployment that is active or has failed stays so
-/

namespace Electrum

open Option List Nat

/-! ## The tree of headers -/

/-- Turns the lowest 1 bit of a number into a 0. -/
def invertLowestOne (n : Nat) : Nat := n &&& (n - 1)

/-- The height `pskip` leads to. -/
def getSkipHeight (height : Nat) : Nat :=
  if height < 2 then 0
  else if height % 2 = 1 then invertLowestOne (invertLowestOne (height - 1)) + 1
  else invertLowestOne height

theorem invertLowestOne_le (n : Nat) : invertLowestOne n ≤ n - 1 := and_le_right

theorem getSkipHeight_lt (height : Nat) (hPos : 0 < height) : getSkipHeight height < height := by
  unfold getSkipHeight
  have hOnce := invertLowestOne_le (height - 1)
  have hTwice := invertLowestOne_le (invertLowestOne (height - 1))
  have hEven := invertLowestOne_le height
  split_ifs <;> omega

/-- `GetAncestor` follows `pskip` only if the parent's `pskip` is not better than the parent of
`pskip`. -/
def followSkip (heightWalk height : Nat) : Bool :=
  let heightSkip := getSkipHeight heightWalk
  let heightSkipPrev := getSkipHeight (heightWalk - 1)
  heightSkip == height ||
    (decide (heightSkip > height) &&
      !(decide ((heightSkipPrev : Int) < (heightSkip : Int) - 2) &&
        decide (heightSkipPrev ≥ height)))

/-- The skip pointers of `CBlockIndex`. -/
def blockSkip : SkipRule where
  jump := getSkipHeight
  follow := followSkip
  jump_lt := getSkipHeight_lt
  le_jump heightWalk height hFollow := by
    simp only [followSkip, Bool.or_eq_true, beq_iff_eq, Bool.and_eq_true,
      decide_eq_true_eq] at hFollow
    omega

/-- The block index: a tree of headers. -/
structure BlockTree (P : Type) extends SkipTree blockSkip P where
  nTime : P → Nat
  nVersion : P → BitVec 32

namespace BlockTree

variable {P : Type} (tree : BlockTree P)

def getAncestor (pindex : P) (height : Int) : Option P := tree.ancestorAt blockSkip pindex height

/-- **Skip pointers.**  `GetAncestor` leads where the parents lead, from every block and to every
height.  A walk that did not end would have no result, so the loop ends within as many turns as the
block is high. -/
theorem getAncestor_eq_back (pindex : P) (height : Int) :
    (tree.getAncestor pindex height =
      if 0 ≤ height ∧ height ≤ tree.nHeight pindex then
        tree.back (tree.nHeight pindex - height).toNat pindex
      else none) ∧
    ((tree.getAncestor pindex height).isSome = true ↔ 0 ≤ height ∧ height ≤ tree.nHeight pindex) := by
  by_cases hRange : 0 ≤ height ∧ height ≤ tree.nHeight pindex
  · obtain ⟨hLow, hHigh⟩ := hRange
    have hSteps : height = tree.nHeight pindex - ((tree.nHeight pindex - height).toNat : Int) := by
      omega
    have hWalk : tree.getAncestor pindex height =
        tree.back (tree.nHeight pindex - height).toNat pindex := by
      conv_lhs => rw [hSteps]
      exact tree.ancestorAt_eq_back pindex _
    obtain ⟨s, hBack, -⟩ := tree.back_eq_some (p := pindex)
      (n := (tree.nHeight pindex - height).toNat) (by omega)
    rw [hWalk, if_pos ⟨hLow, hHigh⟩, hBack]
    exact ⟨rfl, iff_of_true rfl ⟨hLow, hHigh⟩⟩
  · have hNone : tree.getAncestor pindex height = none := if_pos (by omega)
    rw [hNone, if_neg hRange]
    exact ⟨rfl, iff_of_false Bool.false_ne_true hRange⟩

def nMedianTimeSpan : Nat := 11

/-- The median of the times of the last eleven blocks, or of all if there are fewer. -/
def getMedianTimePast (pindex : P) : Int :=
  let times := (tree.path nMedianTimeSpan pindex).map fun p => (tree.nTime p : Int)
  (times.insertionSort (· ≤ ·)).getD (times.length / 2) 0

/-- A median is one of the times. -/
theorem le_getMedianTimePast {bound : Int} (hTimes : ∀ p, bound ≤ tree.nTime p) (pindex : P) :
    bound ≤ tree.getMedianTimePast pindex := by
  simp only [getMedianTimePast]
  set times := (tree.path nMedianTimeSpan pindex).map fun p => (tree.nTime p : Int) with hList
  have hSome : 0 < times.length := by simp [hList, nMedianTimeSpan, SkipLinks.path]
  have hIndex : times.length / 2 < (times.insertionSort (· ≤ ·)).length := by
    rw [length_insertionSort]
    omega
  rw [getD_eq_getElem _ _ hIndex]
  have hMem := (perm_insertionSort (· ≤ ·) times).subset (getElem_mem hIndex)
  obtain ⟨p, -, hTime⟩ := mem_map.mp hMem
  rw [← hTime]
  exact hTimes p

/-- A chain without forks. -/
def line (nTime : Nat → Nat) (nVersion : Nat → BitVec 32) : BlockTree Nat :=
  { SkipTree.line blockSkip with nTime := nTime, nVersion := nVersion }

end BlockTree

/-! ## The state machine -/

inductive ThresholdState
  | defined
  | started
  | lockedIn
  | active
  | failed
  deriving DecidableEq, Repr

/-- `AbstractThresholdConditionChecker`: what a kind of deployment defines. -/
structure ThresholdConditionChecker (P : Type) where
  nPeriod : Nat
  /-- the source divides by it -/
  nPeriod_pos : 0 < nPeriod
  nThreshold : Int
  nTimeStart : Int
  nTimeTimeout : Int
  condition : P → Bool

abbrev ThresholdConditionCache (P : Type) := Memo (Option P) ThresholdState

namespace ThresholdConditionChecker

variable {P : Type} (checker : ThresholdConditionChecker P) (tree : BlockTree P)

/-- The loop that counts the blocks of a period that meet the condition. -/
def countSignals : Nat → Option P → Nat
  | 0, _ => 0
  | _ + 1, none => 0
  | n + 1, some pindexCount =>
    (if checker.condition pindexCount then 1 else 0) + countSignals n (tree.pprev pindexCount)

/-- The state of the period after a boundary, from the state of the period before it. -/
def transition (pindexPrev : P) (state : ThresholdState) : ThresholdState :=
  match state with
  | .defined =>
    if tree.getMedianTimePast pindexPrev ≥ checker.nTimeTimeout then .failed
    else if tree.getMedianTimePast pindexPrev ≥ checker.nTimeStart then .started
    else .defined
  | .started =>
    if tree.getMedianTimePast pindexPrev ≥ checker.nTimeTimeout then .failed
    else if (checker.countSignals tree checker.nPeriod (some pindexPrev) : Int) ≥ checker.nThreshold
      then .lockedIn
    else .started
  | .lockedIn => .active
  | .failed => .failed
  | .active => .active

/-- The last block of the period before the block's child. -/
def boundary (pindexPrev : Option P) : Option P :=
  pindexPrev.bind fun p => tree.getAncestor p (tree.nHeight p - (tree.nHeight p + 1) % checker.nPeriod)

/-- The boundary a period before, as the walk back finds it. -/
def boundaryBefore (pindexPrev : Option P) : Option P :=
  pindexPrev.bind fun p => tree.getAncestor p (tree.nHeight p - checker.nPeriod)

/-- Where the walk back stops: at the genesis block, and where the median time is before the
start. -/
def known : Option P → Option ThresholdState
  | none => some .defined
  | some p => if tree.getMedianTimePast p < checker.nTimeStart then some .defined else none

def transitionAt (pindexPrev : Option P) (state : ThresholdState) : ThresholdState :=
  pindexPrev.elim state fun p => checker.transition tree p state

theorem boundaryBefore_eq (p : P) :
    checker.boundaryBefore tree (some p) = tree.back checker.nPeriod p :=
  tree.ancestorAt_eq_back p checker.nPeriod

/-- How far a boundary is above the genesis block. -/
def heightOf (pindexPrev : Option P) : Nat := pindexPrev.elim 0 fun p => tree.nHeight p + 1

theorem heightOf_back {n : Nat} (hPos : 0 < n) (p : P) :
    heightOf tree (tree.back n p) < heightOf tree (some p) := by
  cases hBack : tree.back n p with
  | none => exact succ_pos _
  | some s =>
    have hHeight := tree.nHeight_of_back hBack
    show tree.nHeight s + 1 < tree.nHeight p + 1
    omega

/-- What `GetStateFor` computes, with the ancestors as `GetAncestor` finds them. -/
def stateRec : ChainRec (Option P) ThresholdState where
  base := checker.known tree
  prev := checker.boundaryBefore tree
  step := checker.transitionAt tree
  rank := heightOf tree
  rank_prev pindexPrev hBase := by
    cases pindexPrev with
    | none => cases hBase
    | some p =>
      rw [checker.boundaryBefore_eq]
      exact heightOf_back tree checker.nPeriod_pos p

variable [DecidableEq P]

/-- `GetStateFor`: the state, and the cache it leaves. -/
def getStateFor (cache : ThresholdConditionCache P) (pindexPrev : Option P) :
    ThresholdState × ThresholdConditionCache P :=
  Memo.eval (checker.stateRec tree) cache (checker.boundary tree pindexPrev)

/-- The cache after earlier calls. -/
def cacheAfter (earlier : List (Option P)) : ThresholdConditionCache P :=
  earlier.foldl (fun cache pindexPrev => (checker.getStateFor tree cache pindexPrev).2) Memo.empty

end ThresholdConditionChecker

/-! ## The plain recursion -/

namespace ThresholdConditionChecker

variable {P : Type} (checker : ThresholdConditionChecker P) (tree : BlockTree P)

/-- The last block of the period before, along the parents. -/
def plainBoundary (p : P) : Option P := tree.back ((tree.nHeight p + 1) % checker.nPeriod) p

/-- The plain recursion over period boundaries: DEFINED where there is no boundary or its median
time is before the start, otherwise one transition from the state one period earlier. -/
def plainRec : ChainRec (Option P) ThresholdState where
  base := checker.known tree
  prev pindexPrev := pindexPrev.bind (tree.back checker.nPeriod)
  step := checker.transitionAt tree
  rank := heightOf tree
  rank_prev pindexPrev hBase := by
    cases pindexPrev with
    | none => cases hBase
    | some p => exact heightOf_back tree checker.nPeriod_pos p

def periodState (boundary : Option P) : ThresholdState := (checker.plainRec tree).value boundary

def plainState (pindexPrev : Option P) : ThresholdState :=
  checker.periodState tree (pindexPrev.bind (checker.plainBoundary tree))

theorem periodState_none : checker.periodState tree none = .defined :=
  (checker.plainRec tree).value_base rfl

theorem periodState_early {b : P} (hEarly : tree.getMedianTimePast b < checker.nTimeStart) :
    checker.periodState tree (some b) = .defined :=
  (checker.plainRec tree).value_base (if_pos hEarly)

theorem periodState_late {b : P} (hLate : ¬ tree.getMedianTimePast b < checker.nTimeStart) :
    checker.periodState tree (some b) =
      checker.transition tree b (checker.periodState tree (tree.back checker.nPeriod b)) :=
  (checker.plainRec tree).value_step (if_neg hLate)

theorem stateRec_eq : checker.stateRec tree = checker.plainRec tree := by
  have hPrev : checker.boundaryBefore tree = fun q => q.bind (tree.back checker.nPeriod) := by
    funext pindexPrev
    cases pindexPrev with
    | none => rfl
    | some p => exact checker.boundaryBefore_eq tree p
  simp only [stateRec, plainRec, hPrev]

theorem boundary_eq (pindexPrev : Option P) :
    checker.boundary tree pindexPrev = pindexPrev.bind (checker.plainBoundary tree) := by
  cases pindexPrev with
  | none => rfl
  | some p =>
    have hWalk := tree.ancestorAt_eq_back p ((tree.nHeight p + 1) % checker.nPeriod)
    exact hWalk

variable [DecidableEq P]

theorem cacheAfter_sound (earlier : List (Option P)) :
    Memo.Sound (checker.stateRec tree) (checker.cacheAfter tree earlier) := by
  have hMap : checker.cacheAfter tree earlier =
      Memo.evals (checker.stateRec tree) Memo.empty (earlier.map (checker.boundary tree)) := by
    rw [Memo.evals, foldl_map]
    rfl
  rw [hMap]
  exact Memo.evals_sound _ (Memo.empty_sound _)

theorem getStateFor_cacheAfter (earlier : List (Option P)) (pindexPrev : Option P) :
    (checker.getStateFor tree (checker.cacheAfter tree earlier) pindexPrev).1 =
      checker.plainState tree pindexPrev := by
  rw [getStateFor, (Memo.eval_spec (checker.cacheAfter_sound tree earlier) _).1, stateRec_eq,
    boundary_eq]
  rfl

end ThresholdConditionChecker

/-! ## Periods -/

namespace ThresholdConditionChecker

variable {P : Type} (checker : ThresholdConditionChecker P) (tree : BlockTree P)

/-- The number of the period that the block's child belongs to. -/
def periodOf (p : P) : Nat := (tree.nHeight p + 1) / checker.nPeriod

/-- A block and its ancestors in one period have one boundary. -/
theorem plainBoundary_eq_of_under {p q : P} (hUnder : tree.Under p q)
    (hPeriod : checker.periodOf tree p = checker.periodOf tree q) :
    checker.plainBoundary tree p = checker.plainBoundary tree q := by
  obtain ⟨n, hBack⟩ := hUnder
  have hHeight := tree.nHeight_of_back hBack
  have hLow := div_add_mod (tree.nHeight p + 1) checker.nPeriod
  have hHigh := div_add_mod (tree.nHeight q + 1) checker.nPeriod
  rw [periodOf, periodOf] at hPeriod
  rw [hPeriod] at hLow
  have hSteps : (tree.nHeight q + 1) % checker.nPeriod =
      n + (tree.nHeight p + 1) % checker.nPeriod := by omega
  rw [plainBoundary, plainBoundary, hSteps, tree.back_add, hBack, bind_some]

/-- The parent of the last block of a period has the boundary of the period before. -/
theorem plainBoundary_parent {b : P} (hLast : (tree.nHeight b + 1) % checker.nPeriod = 0) :
    (tree.pprev b).bind (checker.plainBoundary tree) = tree.back checker.nPeriod b := by
  have hPos := checker.nPeriod_pos
  obtain ⟨m, hm⟩ : ∃ m, checker.nPeriod = m + 1 := ⟨checker.nPeriod - 1, by omega⟩
  rw [hm]
  cases hParent : tree.pprev b with
  | none => simp [SkipLinks.back, hParent]
  | some b' =>
    have hUp := tree.nHeight_of_pprev hParent
    obtain ⟨k, hk⟩ := dvd_of_mod_eq_zero hLast
    have hMod : (tree.nHeight b' + 1) % (m + 1) = m := by
      cases k with
      | zero => omega
      | succ k =>
        rw [hm, mul_succ] at hk
        have hMultiple : tree.nHeight b' + 1 = m + (m + 1) * k := by omega
        rw [hMultiple, add_mul_mod_self_left, mod_eq_of_lt (by omega)]
    rw [bind_some, plainBoundary, hm, hMod]
    simp [SkipLinks.back, hParent]

/-- The boundary of a block in a later period than its ancestor's is above the ancestor. -/
theorem plainBoundary_above {p q : P} (hUnder : tree.Under p q)
    (hPeriod : checker.periodOf tree p ≠ checker.periodOf tree q) :
    ∃ b b', checker.plainBoundary tree q = some b ∧ tree.pprev b = some b' ∧ tree.Under p b' ∧
      tree.nHeight b' < tree.nHeight q ∧ (tree.nHeight b + 1) % checker.nPeriod = 0 := by
  obtain ⟨n, hBack⟩ := hUnder
  have hHeight := tree.nHeight_of_back hBack
  have hLow := div_add_mod (tree.nHeight p + 1) checker.nPeriod
  have hHigh := div_add_mod (tree.nHeight q + 1) checker.nPeriod
  have hRest := mod_lt (tree.nHeight p + 1) checker.nPeriod_pos
  have hMono : checker.periodOf tree p < checker.periodOf tree q :=
    lt_of_le_of_ne (Nat.div_le_div_right (by omega)) hPeriod
  have hNext : checker.nPeriod * ((tree.nHeight p + 1) / checker.nPeriod) + checker.nPeriod ≤
      checker.nPeriod * ((tree.nHeight q + 1) / checker.nPeriod) := by
    exact Nat.mul_le_mul_left _ hMono
  obtain ⟨b, hBoundary, hAt⟩ :=
    tree.back_eq_some (p := q) (n := (tree.nHeight q + 1) % checker.nPeriod) (by omega)
  cases hParent : tree.pprev b with
  | none =>
    have hRoot := tree.nHeight_of_root hParent
    omega
  | some b' =>
    have hUp := tree.nHeight_of_pprev hParent
    have hBack' : tree.back ((tree.nHeight q + 1) % checker.nPeriod + 1) q = some b' := by
      rw [tree.back_add, hBoundary]
      simp [SkipLinks.back, hParent]
    have hLast : tree.nHeight b + 1 =
        checker.nPeriod * ((tree.nHeight q + 1) / checker.nPeriod) := by omega
    refine ⟨b, b', hBoundary, hParent, ⟨_, tree.back_under hBack hBack' (by omega)⟩, by omega, ?_⟩
    rw [hLast, mul_mod_right]

variable [DecidableEq P]

/-- **The cache makes no difference to a state.**  After any earlier calls `GetStateFor` gives what
the plain recursion over the period boundaries gives, and all blocks of one period get the same. -/
theorem getStateFor_eq_plainState (earlier earlier' : List (Option P)) :
    (∀ pindexPrev, (checker.getStateFor tree (checker.cacheAfter tree earlier) pindexPrev).1 =
        checker.periodState tree (pindexPrev.bind (checker.plainBoundary tree))) ∧
      checker.periodState tree none = .defined ∧
      (∀ b, checker.periodState tree (some b) =
        if tree.getMedianTimePast b < checker.nTimeStart then .defined
        else checker.transition tree b (checker.periodState tree (tree.back checker.nPeriod b))) ∧
      ∀ p q, checker.plainBoundary tree p = checker.plainBoundary tree q ∨
          (tree.Under p q ∧ checker.periodOf tree p = checker.periodOf tree q) →
        (checker.getStateFor tree (checker.cacheAfter tree earlier) (some p)).1 =
          (checker.getStateFor tree (checker.cacheAfter tree earlier') (some q)).1 := by
  refine ⟨checker.getStateFor_cacheAfter tree earlier, checker.periodState_none tree, ?_, ?_⟩
  · intro b
    split_ifs with hEarly
    · exact checker.periodState_early tree hEarly
    · exact checker.periodState_late tree hEarly
  · intro p q hSame
    have hBoundary : checker.plainBoundary tree p = checker.plainBoundary tree q := by
      rcases hSame with hSame | ⟨hUnder, hPeriod⟩
      · exact hSame
      · exact checker.plainBoundary_eq_of_under tree hUnder hPeriod
    rw [getStateFor_cacheAfter, getStateFor_cacheAfter]
    exact congrArg (checker.periodState tree) hBoundary

/-- Periods of two blocks, one of which has to signal. -/
def pairs : ThresholdConditionChecker Nat :=
  ⟨2, two_pos, 1, 0, 100, fun _ => true⟩

theorem getStateFor_eq_plainState_pairs :
    (pairs.getStateFor (.line id fun _ => 0) (pairs.cacheAfter (.line id fun _ => 0) [some 5])
        (some 3)).1 =
      (pairs.getStateFor (.line id fun _ => 0) (pairs.cacheAfter (.line id fun _ => 0) [])
        (some 4)).1 :=
  (getStateFor_eq_plainState pairs (.line id fun _ => 0) [some 5] []).2.2.2 3 4
    (Or.inr ⟨⟨1, rfl⟩, rfl⟩)

end ThresholdConditionChecker

/-! ## Final states -/

/-- Nothing happens any more in these. -/
def ThresholdState.Final (state : ThresholdState) : Prop := state = .active ∨ state = .failed

namespace ThresholdConditionChecker

variable {P : Type} (checker : ThresholdConditionChecker P) (tree : BlockTree P)

theorem transition_final {state : ThresholdState} (hFinal : state.Final) (b : P) :
    checker.transition tree b state = state := by
  rcases hFinal with rfl | rfl <;> rfl

/-- **When a final state stays.**  Not when the median time falls back before the start at the end
of a later period: the walk back then stops there. -/
theorem plainState_final_iff {p : P} {state : ThresholdState} (hFinal : state.Final)
    (hState : checker.plainState tree (some p) = state) :
    (∀ q, tree.Under p q → checker.plainState tree (some q) = state) ↔
      ∀ q b, tree.Under p q → checker.periodOf tree p ≠ checker.periodOf tree q →
        checker.plainBoundary tree q = some b →
        checker.nTimeStart ≤ tree.getMedianTimePast b := by
  constructor
  · intro hStays q b hUnder hPeriod hBoundary
    by_contra hEarly
    have hDefined : checker.plainState tree (some q) = .defined := by
      rw [plainState, bind_some, hBoundary]
      exact checker.periodState_early tree (not_le.mp hEarly)
    rw [hStays q hUnder] at hDefined
    subst hDefined
    rcases hFinal with hFinal | hFinal <;> cases hFinal
  · intro hTimes q
    -- over the height of the descendant: its boundary's parent lies a period before
    induction hHeight : tree.nHeight q using Nat.strong_induction_on generalizing q with
    | _ height ih =>
      intro hUnder
      by_cases hPeriod : checker.periodOf tree p = checker.periodOf tree q
      · rw [← hState, plainState, plainState, bind_some, bind_some,
          checker.plainBoundary_eq_of_under tree hUnder hPeriod]
      · obtain ⟨b, b', hBoundary, hParent, hUnder', hLower, hLast⟩ :=
          checker.plainBoundary_above tree hUnder hPeriod
        have hLate := hTimes q b hUnder hPeriod hBoundary
        have hIH : checker.plainState tree (tree.pprev b) = state := by
          rw [hParent]
          exact ih _ (by omega) b' rfl hUnder'
        rw [plainState, checker.plainBoundary_parent tree hLast] at hIH
        rw [plainState, bind_some, hBoundary, checker.periodState_late tree (not_lt.mpr hLate), hIH]
        exact checker.transition_final tree hFinal b

end ThresholdConditionChecker

end Electrum
