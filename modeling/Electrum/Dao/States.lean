import Electrum.Dao.Objects
import Electrum.Lib.Fold

/-!
# The last state of an object

`GetLastState` walks over `mapState` and takes the entry of the highest block.  When one entry
lies above all others the walk finds it, whatever the order; this is so for the entry that a
new block adds.
-/

namespace Electrum

open Std.ExtTreeMap

namespace StateMap

variable {idx : BlockMap} {mapState : StateMap} {pindex : CBlockIndex}

/-- **The highest entry.** An admitted entry whose block lies above those of all other admitted
entries is the one that the walk returns. -/
theorem lastEntry_eq_some {keep : Flags → Bool}
    {hash : UInt256} {state : Flags} (hEntry : mapState[hash]? = some state)
    (hKeep : keep state = true) (hKnown : idx[hash]? = some pindex) (hPos : 0 < pindex.nHeight)
    (hMax : ∀ k st pi, mapState[k]? = some st → keep st = true → idx[k]? = some pi → k ≠ hash →
      pi.nHeight < pindex.nHeight) :
    lastEntry idx keep mapState = some (pindex, state) := by
  have hMem : (hash, state) ∈ mapState.toList :=
    mem_toList_iff_getElem?_eq_some.mpr hEntry
  -- below the highest entry until it is visited, and then fixed
  refine (foldl_invariant (fun done (ret : Option (CBlockIndex × Flags)) =>
    ((hash, state) ∈ done → ret = some (pindex, state)) ∧
      ((hash, state) ∉ done → (ret.map (·.1.nHeight)).getD 0 < pindex.nHeight))
    mapState.toList ?_ ?_).1 hMem
  · exact ⟨fun h => (List.not_mem_nil h).elim, fun _ => hPos⟩
  · intro done it rest ret hl hP
    have hIt : mapState[it.1]? = some it.2 := by
      refine mem_toList_iff_getElem?_eq_some.mp ?_
      rw [hl]
      simp
    by_cases hSame : it.1 = hash
    · -- the highest entry itself
      have hItEq : it = (hash, state) := by
        rw [hSame, hEntry] at hIt
        exact Prod.ext hSame (Option.some.inj hIt).symm
      subst hItEq
      have hNotDone : (hash, state) ∉ done := by
        intro hDone
        have hDistinct := distinct_keys_toList (t := mapState)
        rw [hl, List.pairwise_append] at hDistinct
        exact hDistinct.2.2 _ hDone _ List.mem_cons_self Std.compare_self
      simp [hKeep, hKnown, hP.2 hNotDone]
    · -- any other entry is lower, or does not count
      have hDone : (hash, state) ∈ done ++ [it] ↔ (hash, state) ∈ done := by
        rw [List.mem_append, List.mem_singleton]
        refine ⟨fun h => h.resolve_right fun hEq => hSame ?_, .inl⟩
        rw [← hEq]
      rw [hDone]
      cases hK : keep it.2 with
      | false => simpa [hK] using hP
      | true =>
        cases hI : idx[it.1]? with
        | none => simpa [hK, hI] using hP
        | some pi =>
          have hLow := hMax it.1 it.2 pi hIt hK hI hSame
          simp only [Bool.not_true, Bool.false_eq_true, if_false]
          split
          · rename_i hLt
            refine ⟨fun h => ?_, fun _ => hLow⟩
            rw [hP.1 h] at hLt
            exact absurd hLt (Nat.not_lt.mpr (Nat.le_of_lt hLow))
          · exact hP

/-- Every entry belongs to a block at height `n` or below. -/
def Below (idx : BlockMap) (n : Nat) (mapState : StateMap) : Prop :=
  ∀ (k : UInt256) (st : Flags) (pi : CBlockIndex), mapState[k]? = some st → idx[k]? = some pi →
    pi.nHeight ≤ n

instance (idx : BlockMap) (n : Nat) (mapState : StateMap) : Decidable (Below idx n mapState) :=
  decidable_of_iff
    (∀ (k : UInt256) (st : Flags), mapState[k]? = some st → ∀ pi ∈ idx[k]?, pi.nHeight ≤ n)
    ⟨fun h k st pi hk hi => h k st hk pi hi, fun h k st hk pi hi => h k st pi hk hi⟩

theorem getElem?_setState (pindex : CBlockIndex) (state : Flags) (mapState : StateMap)
    (k : UInt256) :
    (mapState.setState pindex state)[k]? =
      if pindex.phashBlock = k then some state else mapState[k]? := by
  simp [setState, Std.ExtTreeMap.getElem?_insert]

/-- The second map has at most one more entry, of the block `pindex`. -/
def Entered (pindex : CBlockIndex) (mapState mapState' : StateMap) : Prop :=
  mapState' = mapState ∨ ∃ state, mapState' = mapState.setState pindex state

theorem setState_setState (pindex : CBlockIndex) (state state' : Flags) (mapState : StateMap) :
    (mapState.setState pindex state).setState pindex state' = mapState.setState pindex state' := by
  apply ext_getElem?
  intro k
  simp only [getElem?_setState]
  split <;> rfl

theorem Entered.trans {m m' m'' : StateMap} (h : Entered pindex m m')
    (h' : Entered pindex m' m'') : Entered pindex m m'' := by
  rcases h' with rfl | ⟨state', rfl⟩
  · exact h
  · rcases h with rfl | ⟨state, rfl⟩
    · exact .inr ⟨state', rfl⟩
    · exact .inr ⟨state', setState_setState pindex state state' m⟩

section NewBlock

variable {idx : BlockMap} {n : Nat} {mapState : StateMap} {pindex : CBlockIndex}

theorem Below.mono {m : Nat} (h : mapState.Below idx n) (hle : n ≤ m) : mapState.Below idx m :=
  fun k st pi hk hi => (h k st pi hk hi).trans hle

theorem Below.setState (h : mapState.Below idx n) (hKnown : idx[pindex.phashBlock]? = some pindex)
    (hHeight : pindex.nHeight ≤ n) (state : Flags) :
    (mapState.setState pindex state).Below idx n := by
  intro k st pi hk hi
  rw [getElem?_setState] at hk
  split at hk
  case isTrue hEq =>
    rw [← hEq, hKnown] at hi
    cases hi
    exact hHeight
  case isFalse => exact h k st pi hk hi

theorem Below.entered {mapState' : StateMap} (h : mapState.Below idx n)
    (hKnown : idx[pindex.phashBlock]? = some pindex) (hHeight : pindex.nHeight ≤ n)
    (hEntered : Entered pindex mapState mapState') : mapState'.Below idx n := by
  rcases hEntered with rfl | ⟨state, rfl⟩
  · exact h
  · exact h.setState hKnown hHeight state

/-- The state that a block sets is the last one, if no entry of another block is as high. -/
theorem getLastState_setState (hKnown : idx[pindex.phashBlock]? = some pindex)
    (hPos : 0 < pindex.nHeight)
    (hOthers : ∀ (k : UInt256) (st : Flags) (pi : CBlockIndex), mapState[k]? = some st →
      idx[k]? = some pi → k ≠ pindex.phashBlock → pi.nHeight < pindex.nHeight) (state : Flags) :
    (mapState.setState pindex state).getLastState idx = state := by
  have hEntry : (mapState.setState pindex state)[pindex.phashBlock]? = some state := by
    rw [getElem?_setState, if_pos rfl]
  rw [getLastState, lastEntry_eq_some hEntry rfl hKnown hPos]
  · rfl
  · intro k st pi hk _ hi hne
    rw [getElem?_setState, if_neg (Ne.symm hne)] at hk
    exact hOthers k st pi hk hi hne

end NewBlock

/-- A state map below the height of a block has no entry of that block. -/
theorem Below.fresh {n : Nat} (h : mapState.Below idx n)
    (hKnown : idx[pindex.phashBlock]? = some pindex) (hAbove : n < pindex.nHeight) :
    mapState[pindex.phashBlock]? = none := by
  cases hEntry : mapState[pindex.phashBlock]? with
  | none => rfl
  | some state =>
    have hLe := h _ _ _ hEntry hKnown
    omega

/-- The state that a new block sets is the last one. -/
theorem Below.getLastState_setState {n : Nat} (h : mapState.Below idx n)
    (hKnown : idx[pindex.phashBlock]? = some pindex) (hAbove : n < pindex.nHeight)
    (state : Flags) : (mapState.setState pindex state).getLastState idx = state :=
  StateMap.getLastState_setState hKnown (by omega)
    (fun k st pi hk hi _ => Nat.lt_of_le_of_lt (h k st pi hk hi) hAbove) state

/-- Every entry of another block than `pindex` lies below it. -/
def Under (idx : BlockMap) (pindex : CBlockIndex) (mapState : StateMap) : Prop :=
  ∀ (k : UInt256) (st : Flags) (pi : CBlockIndex), mapState[k]? = some st → idx[k]? = some pi →
    k ≠ pindex.phashBlock → pi.nHeight < pindex.nHeight

section Under

variable {idx : BlockMap} {pindex : CBlockIndex} {mapState : StateMap}

theorem Below.under {n : Nat} (h : mapState.Below idx n) (hAbove : n < pindex.nHeight) :
    mapState.Under idx pindex :=
  fun k st pi hk hi _ => Nat.lt_of_le_of_lt (h k st pi hk hi) hAbove

theorem Under.setState (h : mapState.Under idx pindex) (state : Flags) :
    (mapState.setState pindex state).Under idx pindex := by
  intro k st pi hk hi hne
  rw [getElem?_setState, if_neg (Ne.symm hne)] at hk
  exact h k st pi hk hi hne

theorem Under.getLastState_setState (h : mapState.Under idx pindex)
    (hKnown : idx[pindex.phashBlock]? = some pindex) (hPos : 0 < pindex.nHeight)
    (state : Flags) : (mapState.setState pindex state).getLastState idx = state :=
  StateMap.getLastState_setState hKnown hPos h state

end Under

end StateMap

end Electrum
