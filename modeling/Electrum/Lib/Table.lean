import Electrum.Lib.Fold
import Electrum.Lib.OrderedMap

/-!
# Tables inside a state

A *table* is a map kept in a larger state, some of whose values are dropped when they are
written.  A loop over the keys of a table that writes each entry at most once treats the entries
one by one: an entry ends up as its own turn leaves it.

Main results:
* `Table.foldl_turns` — such a loop, entry by entry
* `Table.foldl_induct` — what every turn keeps
* `Table.foldl_write` — a loop whose turns write what can be said in advance
-/

namespace Electrum

/-- A map that can be read from and put into a state; `isNull` values are not kept. -/
structure Table (σ κ α : Type) [Ord κ] where
  map : σ → Map κ α
  put : σ → Map κ α → σ
  isNull : α → Bool
  map_put : ∀ s m, map (put s m) = m
  put_map : ∀ s, put s (map s) = s
  put_put : ∀ s m m', put (put s m) m' = put s m'

namespace Table

variable {σ κ α τ : Type} [Ord κ] [Std.TransOrd κ] [Std.LawfulEqOrd κ] [DecidableEq κ]
  (T : Table σ κ α)

def get (s : σ) (k : κ) : Option α := (T.map s)[k]?

def set (s : σ) (k : κ) (a : α) : σ := T.put s (Map.setUnless T.isNull (T.map s) k a)

variable {T} {s s' : σ} {k : κ} {a : α}

theorem get_set (hNull : T.isNull a = false) (k' : κ) :
    T.get (T.set s k a) k' = if k = k' then some a else T.get s k' := by
  unfold get set
  rw [T.map_put, Map.getElem?_setUnless, hNull]
  rfl

theorem set_self (h : T.get s k = some a) (hNull : T.isNull a = false) : T.set s k a = s := by
  unfold set
  rw [Map.setUnless_self h hNull, T.put_map]

variable (T) in
/-- Where a loop over the table can be: nothing else changed, no entry came or went, and the
entries are good. -/
structure Loop (good : κ → α → Prop) (s s' : σ) : Prop where
  frame : s' = T.put s (T.map s')
  keys : ∀ k, (T.get s' k).isSome = (T.get s k).isSome
  good : ∀ k a, T.get s' k = some a → good k a

variable {good : κ → α → Prop}

omit [Std.LawfulEqOrd κ] [DecidableEq κ] in
theorem Loop.refl (h : ∀ k a, T.get s k = some a → good k a) : T.Loop good s s :=
  ⟨(T.put_map s).symm, fun _ => rfl, h⟩

theorem Loop.set (h : T.Loop good s s') {b : α} (hb : T.get s' k = some b) (hGood : good k a)
    (hNull : T.isNull a = false) : T.Loop good s (T.set s' k a) := by
  refine ⟨?_, fun k' => ?_, fun k' a' ha => ?_⟩
  · conv_lhs => rw [Table.set, h.frame, T.put_put, T.map_put]
    rw [Table.set, T.map_put]
  · rw [← h.keys k', get_set hNull]
    split
    case isTrue hEq => rw [← hEq, hb]; rfl
    case isFalse => rfl
  · rw [get_set hNull] at ha
    split at ha
    case isTrue hEq =>
      cases ha
      exact hEq ▸ hGood
    case isFalse => exact h.good k' a' ha

omit [Std.LawfulEqOrd κ] [DecidableEq κ] in
/-- What good entries have in common with those at the start. -/
theorem Loop.map_get {β : Type} (h : T.Loop good s s') {g : α → β}
    (hGood : ∀ k a, good k a → some (g a) = (T.get s k).map g) (k : κ) :
    (T.get s' k).map g = (T.get s k).map g := by
  cases ha : T.get s' k with
  | some a => exact hGood k a (h.good k a ha)
  | none =>
    have hKey := h.keys k
    rw [ha] at hKey
    cases hs : T.get s k with
    | none => rfl
    | some b =>
      rw [hs] at hKey
      cases hKey

section Turns

variable (good) (proj : τ → σ) {f : τ → κ → τ} (st : τ) (hNull : ∀ {k a}, good k a → T.isNull a = false)
  (hNone : ∀ mid k, T.get (proj mid) k = none → f mid k = mid)
  (hTurn : ∀ mid k a, T.Loop good (proj st) (proj mid) → T.get (proj mid) k = some a →
    ∃ a', good k a' ∧ proj (f mid k) = T.set (proj mid) k a')
include hNull hNone hTurn

/-- A turn keeps to its entry. -/
theorem loop_turn {mid : τ} (hLoop : T.Loop good (proj st) (proj mid)) (k : κ) :
    T.Loop good (proj st) (proj (f mid k)) ∧
      ∀ k', k' ≠ k → T.get (proj (f mid k)) k' = T.get (proj mid) k' := by
  cases ha : T.get (proj mid) k with
  | none =>
    rw [hNone mid k ha]
    exact ⟨hLoop, fun _ _ => rfl⟩
  | some a =>
    obtain ⟨a', hGood, hEq⟩ := hTurn mid k a hLoop ha
    rw [hEq]
    refine ⟨hLoop.set ha hGood (hNull hGood), fun k' hne => ?_⟩
    rw [get_set (hNull hGood), if_neg (Ne.symm hne)]

variable {keys : List κ} (hNodup : keys.Nodup)
  (hKeys : ∀ k, k ∈ keys ↔ (T.get (proj st) k).isSome = true)
  (hInit : ∀ k a, T.get (proj st) k = some a → good k a)
include hNodup hKeys hInit

/-- **A loop over a table.** An entry ends up as its own turn leaves it, from a state in which
it was still as at the start. -/
theorem foldl_turns : T.Loop good (proj st) (proj (keys.foldl f st)) ∧ ∀ k,
    (T.get (proj st) k = none → T.get (proj (keys.foldl f st)) k = none) ∧
    ∀ a, T.get (proj st) k = some a → ∃ mid, T.Loop good (proj st) (proj mid) ∧
      T.get (proj mid) k = some a ∧
      T.get (proj (keys.foldl f st)) k = T.get (proj (f mid k)) k := by
  obtain ⟨hLoop, hEach⟩ := foldl_turn (fun mid k => T.get (proj mid) k)
    (fun mid => T.Loop good (proj st) (proj mid))
    (fun mid k h => (loop_turn good proj st hNull hNone hTurn h k).1)
    (fun mid k k' h hne => (loop_turn good proj st hNull hNone hTurn h k).2 k' hne)
    hNodup (.refl hInit)
  refine ⟨hLoop, fun k => ⟨fun hNot => ?_, fun a ha => ?_⟩⟩
  · refine ((hEach k).1 fun hMem => ?_).trans hNot
    rw [hKeys, hNot] at hMem
    cases hMem
  · obtain ⟨mid, hMid, hSame, hEnd⟩ := (hEach k).2 ((hKeys k).mpr (by rw [ha]; rfl))
    exact ⟨mid, hMid, hSame.trans ha, hEnd⟩

/-- What every turn keeps, on an entry that is still as at the start, the loop keeps. -/
theorem foldl_induct {P : τ → Prop} (hP : P st)
    (hStep : ∀ mid k a, T.Loop good (proj st) (proj mid) → P mid → T.get (proj st) k = some a →
      T.get (proj mid) k = some a → P (f mid k)) : P (keys.foldl f st) := by
  refine (foldl_invariant (fun done mid => P mid ∧ T.Loop good (proj st) (proj mid) ∧
    ∀ k, k ∉ done → T.get (proj mid) k = T.get (proj st) k) keys
    ⟨hP, .refl hInit, fun _ _ => rfl⟩ ?_).1
  rintro done k rest mid hl ⟨hMid, hLoop, hRest⟩
  have hNot : k ∉ done := fun hMem =>
    (List.nodup_append.mp (hl ▸ hNodup)).2.2 _ hMem _ List.mem_cons_self rfl
  obtain ⟨hLoop', hOther⟩ := loop_turn good proj st hNull hNone hTurn hLoop k
  obtain ⟨a, ha⟩ := Option.isSome_iff_exists.mp ((hKeys k).mp (by rw [hl]; simp))
  refine ⟨hStep mid k a hLoop hMid ha ((hRest k hNot).trans ha), hLoop', fun k' hk' => ?_⟩
  rw [List.mem_append, List.mem_singleton, not_or] at hk'
  exact (hOther k' hk'.2).trans (hRest k' hk'.1)

end Turns

/-- **Writing every entry.** -/
theorem foldl_write (good : κ → α → Prop) {f : σ → κ → σ} (hNull : ∀ {k a}, good k a → T.isNull a = false)
    (write : α → α) (hWrite : ∀ {k a}, good k a → good k (write a))
    (hNone : ∀ mid k, T.get mid k = none → f mid k = mid)
    (hTurn : ∀ mid k a, T.Loop good s mid → T.get mid k = some a → f mid k = T.set mid k (write a))
    {keys : List κ} (hNodup : keys.Nodup) (hKeys : ∀ k, k ∈ keys ↔ (T.get s k).isSome = true)
    (hInit : ∀ k a, T.get s k = some a → good k a) :
    T.Loop good s (keys.foldl f s) ∧ ∀ k, T.get (keys.foldl f s) k = (T.get s k).map write := by
  obtain ⟨hLoop, hEach⟩ := foldl_turns (T := T) good id s hNull hNone
    (fun mid k a hMid ha => ⟨write a, hWrite (hMid.good k a ha), hTurn mid k a hMid ha⟩)
    hNodup hKeys hInit
  refine ⟨hLoop, fun k => ?_⟩
  cases ha : T.get s k with
  | none => exact (hEach k).1 ha
  | some a =>
    obtain ⟨mid, hMid, ha', hEnd⟩ := (hEach k).2 a ha
    have hGood : good k (write a) := hWrite (hMid.good k a ha')
    refine hEnd.trans ?_
    show T.get (f mid k) k = _
    rw [hTurn mid k a hMid ha', get_set (hNull hGood), if_pos rfl]
    rfl

end Table

end Electrum
