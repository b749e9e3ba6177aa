import Electrum.Lib.OrderedMap
import Mathlib.Logic.Function.Basic

/-!
# An index of placed items by owner

Items lie at places, and some have an owner.  An index has each item with an owner under a key made
of the owner and the place.  Here is what keeps such an index exact while items come and go.

Main results:
* `Filed.withdraw`, `Filed.deposit` — one item goes or comes
* `Filed.foldl_withdraw`, `Filed.foldl_deposit` — many items go or come
* `Filed.congr` — items without an owner do not count
-/

namespace Electrum

open List Option Function

variable {κ π ω ν : Type} [Ord κ] [Std.TransOrd κ] [Std.LawfulEqOrd κ] [DecidableEq ω]

/-- The index has under each key the item at the place, if it belongs to the owner. -/
def Filed (key : ω → π → κ) (owner : ν → Option ω) (index : Map κ ν) (items : π → Option ν) : Prop :=
  ∀ o p, index[key o p]? = (items p).filter fun v => decide (owner v = some o)

/-- Take out what an owner, if there is one, has at a place. -/
def Map.withdraw (key : ω → π → κ) (index : Map κ ν) (o : Option ω) (p : π) : Map κ ν :=
  match o with
  | none => index
  | some o => index.erase (key o p)

/-- Put in what an owner, if there is one, has at a place. -/
def Map.deposit (key : ω → π → κ) (index : Map κ ν) (o : Option ω) (p : π) (v : ν) : Map κ ν :=
  match o with
  | none => index
  | some o => index.insert (key o p) v

namespace Filed

variable {key : ω → π → κ} {owner : ν → Option ω} {index : Map κ ν} {items items' : π → Option ν}

omit [Std.LawfulEqOrd κ] in
/-- Items without an owner do not count. -/
theorem congr (items : π → Option ν) (h : Filed key owner index items)
    (hSame : ∀ p v, owner v ≠ none → (items p = some v ↔ items' p = some v)) :
    Filed key owner index items' := by
  intro o p
  rw [h o p]
  refine Option.ext fun v => ?_
  simp only [filter_eq_some_iff, decide_eq_true_eq]
  refine and_congr_left fun hOwner => hSame p v ?_
  rw [hOwner]
  exact some_ne_none o

section Places

variable [DecidableEq π] (hKey : Function.Injective2 key)

include hKey

/-- **An item goes.** -/
theorem withdraw (h : Filed key owner index items) {o : Option ω} {p : π}
    (hOwner : ∀ v, items p = some v → owner v = o) :
    Filed key owner (Map.withdraw key index o p) (Function.update items p none) := by
  intro o' p'
  -- an item at the place belongs to the owner and to nobody else
  have hOther : some o' ≠ o → (items p).filter (fun v => decide (owner v = some o')) = none := by
    intro hNe
    rw [filter_eq_none_iff]
    intro v hv
    rw [hOwner v hv, decide_eq_true_eq]
    exact hNe.symm
  by_cases hPlace : p' = p
  · subst hPlace
    rw [update_self]
    cases o with
    | none => exact (h o' p').trans (hOther (some_ne_none o'))
    | some o =>
      rw [Map.withdraw, Std.ExtTreeMap.getElem?_erase]
      split
      · rfl
      case isFalse hNe =>
        refine (h o' p').trans (hOther fun hEq => hNe ?_)
        rw [some.inj hEq]
        exact Std.ReflCmp.compare_self
  · rw [update_of_ne hPlace, ← h o' p']
    cases o with
    | none => rfl
    | some o =>
      rw [Map.withdraw, Std.ExtTreeMap.getElem?_erase, if_neg]
      intro hEq
      exact hPlace (hKey (Std.LawfulEqCmp.eq_of_compare hEq)).2.symm

/-- **An item comes.** -/
theorem deposit (h : Filed key owner index items) {p : π} (hNone : items p = none) (v : ν) :
    Filed key owner (Map.deposit key index (owner v) p v) (Function.update items p (some v)) := by
  intro o' p'
  by_cases hPlace : p' = p
  · subst hPlace
    rw [update_self]
    have hOld : index[key o' p']? = none := by
      rw [h o' p', hNone, filter_none]
    cases hOwner : owner v with
    | none =>
      rw [filter_some_neg (by simp [hOwner])]
      exact hOld
    | some o =>
      rw [Map.deposit, Std.ExtTreeMap.getElem?_insert]
      split
      case isTrue hEq =>
        obtain rfl := (hKey (Std.LawfulEqCmp.eq_of_compare hEq)).1
        rw [filter_some_pos (by simp [hOwner])]
      case isFalse hNe =>
        have hOther : o ≠ o' := by
          rintro rfl
          exact hNe Std.ReflCmp.compare_self
        rw [filter_some_neg (by simp [hOwner, hOther])]
        exact hOld
  · rw [update_of_ne hPlace, ← h o' p']
    cases owner v with
    | none => rfl
    | some o =>
      rw [Map.deposit, Std.ExtTreeMap.getElem?_insert, if_neg]
      intro hEq
      exact hPlace (hKey (Std.LawfulEqCmp.eq_of_compare hEq)).2.symm

variable {γ : Type} (place : γ → π) {l : List γ}

/-- **Many items go.** -/
theorem foldl_withdraw (h : Filed key owner index items) (own : γ → Option ω)
    (hOwner : ∀ a ∈ l, ∀ v, items (place a) = some v → owner v = own a)
    (hGone : ∀ a ∈ l, items' (place a) = none) (hOld : ∀ p, p ∉ l.map place → items' p = items p) :
    Filed key owner (l.foldl (fun m a => Map.withdraw key m (own a) (place a)) index) items' := by
  induction l generalizing index items with
  | nil =>
    obtain rfl : items' = items := funext fun p => hOld p not_mem_nil
    exact h
  | cons a rest ih =>
    refine ih (h.withdraw hKey (hOwner a mem_cons_self)) ?_
      (fun b hb => hGone b (mem_cons_of_mem a hb)) ?_
    · intro b hb v hv
      by_cases hEq : place b = place a
      · rw [hEq, update_self] at hv
        cases hv
      · rw [update_of_ne hEq] at hv
        exact hOwner b (mem_cons_of_mem a hb) v hv
    · intro p hp
      by_cases hEq : p = place a
      · rw [hEq, update_self]
        exact hGone a mem_cons_self
      · rw [update_of_ne hEq]
        exact hOld p fun hMem => (mem_cons.mp hMem).elim hEq hp

/-- **Many items come.** -/
theorem foldl_deposit (h : Filed key owner index items) (val : γ → ν)
    (hNodup : (l.map place).Nodup) (hNone : ∀ a ∈ l, items (place a) = none)
    (hNew : ∀ a ∈ l, items' (place a) = some (val a))
    (hOld : ∀ p, p ∉ l.map place → items' p = items p) :
    Filed key owner
      (l.foldl (fun m a => Map.deposit key m (owner (val a)) (place a) (val a)) index) items' := by
  induction l generalizing index items with
  | nil =>
    obtain rfl : items' = items := funext fun p => hOld p not_mem_nil
    exact h
  | cons a rest ih =>
    rw [map_cons, nodup_cons] at hNodup
    refine ih (h.deposit hKey (hNone a mem_cons_self) (val a)) hNodup.2 ?_
      (fun b hb => hNew b (mem_cons_of_mem a hb)) ?_
    · intro b hb
      have hNe : place b ≠ place a := fun hEq => hNodup.1 (hEq ▸ mem_map_of_mem hb)
      rw [update_of_ne hNe]
      exact hNone b (mem_cons_of_mem a hb)
    · intro p hp
      by_cases hEq : p = place a
      · rw [hEq, update_self]
        exact hNew a mem_cons_self
      · rw [update_of_ne hEq]
        exact hOld p fun hMem => (mem_cons.mp hMem).elim hEq hp

end Places

end Filed

end Electrum
