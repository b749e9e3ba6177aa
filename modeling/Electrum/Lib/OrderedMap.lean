import Mathlib

/-!
# Ordered maps

`std::map` is modelled by `Std.ExtTreeMap`: a finite map with a total order on its keys,
equal to another exactly when the two agree at every key.  Iteration is `toList`, in key
order.  Pairs are compared lexicographically, as `std::pair` is.
-/

namespace Electrum

open Std.ExtTreeMap

attribute [instance] lexOrd

/-- `std::map` with the default comparison of its keys. -/
abbrev Map (κ α : Type) [Ord κ] := Std.ExtTreeMap κ α compare

namespace Map

variable {κ α : Type} [Ord κ] [Std.TransOrd κ] [Std.LawfulEqOrd κ] {β : Type}

/-- The keys of a map are listed once each. -/
theorem nodup_keys (m : Map κ α) : m.keys.Nodup := by
  refine (distinct_keys (t := m)).imp ?_
  intro a b hne hEq
  exact hne (Std.compare_eq_iff_eq.mpr hEq)

/-- The entries that `f` picks are distinct when no two entries give the same. -/
theorem nodup_filterMap_iff {γ : Type} (m : Map κ α) (f : κ × α → Option γ) :
    (m.toList.filterMap f).Nodup ↔ ∀ a b, m[a.1]? = some a.2 → m[b.1]? = some b.2 → a ≠ b →
      ∀ c, f a = some c → f b ≠ some c := by
  let r (a b : κ × α) : Prop := ∀ c, f a = some c → ∀ d, f b = some d → c ≠ d
  have : Std.Symm r := ⟨fun a b h c hc d hd hEq => h d hd c hc hEq.symm⟩
  have hNodup : m.toList.Nodup := by
    refine List.Nodup.of_map Prod.fst ?_
    rw [map_fst_toList_eq_keys]
    exact nodup_keys m
  rw [List.Nodup, List.pairwise_filterMap, ← hNodup.pairwise_coe (r := r)]
  constructor
  · intro h a b ha hb hNe c hc hd
    exact h (mem_toList_iff_getElem?_eq_some.mpr ha) (mem_toList_iff_getElem?_eq_some.mpr hb) hNe
      c hc c hd rfl
  · rintro h a ha b hb hNe c hc d hd rfl
    exact h a b (mem_toList_iff_getElem?_eq_some.mp ha) (mem_toList_iff_getElem?_eq_some.mp hb) hNe
      c hc hd

theorem mem_keys_iff (m : Map κ α) (k : κ) : k ∈ m.keys ↔ (m[k]?).isSome = true := by
  rw [mem_keys, isSome_getElem?_iff_mem]

/-- What holds of every entry can be checked on the list of entries. -/
theorem forall_getElem?_iff (m : Map κ α) (P : κ → α → Prop) :
    (∀ k a, m[k]? = some a → P k a) ↔ ∀ it ∈ m.toList, P it.1 it.2 := by
  constructor
  · intro h it hIt
    exact h it.1 it.2 (mem_toList_iff_getElem?_eq_some.mp hIt)
  · intro h k a hk
    exact h (k, a) (mem_toList_iff_getElem?_eq_some.mpr hk)

instance decidableForall (m : Map κ α) (P : κ → α → Prop) [∀ k a, Decidable (P k a)] :
    Decidable (∀ k a, m[k]? = some a → P k a) :=
  decidable_of_iff _ (forall_getElem?_iff m P).symm

/-- What holds of every key can be checked on the list of keys. -/
instance decidableForallKey (m : Map κ α) (P : κ → Prop) [DecidablePred P] :
    Decidable (∀ k, (m[k]?).isSome = true → P k) :=
  decidable_of_iff (∀ k ∈ m.keys, P k) (by simp only [mem_keys_iff])

variable [DecidableEq κ]

/-- Write a value, dropping the key instead when `isNull` holds of the value. -/
def setUnless (isNull : α → Bool) (m : Map κ α) (k : κ) (a : α) : Map κ α :=
  if isNull a then m.erase k else m.insert k a

theorem getElem?_setUnless (isNull : α → Bool) (m : Map κ α) (k k' : κ) (a : α) :
    (setUnless isNull m k a)[k']? = if k = k' then (if isNull a then none else some a) else m[k']? := by
  unfold setUnless
  split
  · simp [getElem?_erase]
  · simp [getElem?_insert]

variable {isNull : α → Bool} {m : Map κ α} {k : κ} {a : α} {γ : Type} {l : List (κ × α)}

/-- Overwriting a value by one that `f` does not tell apart from it. -/
theorem map_getElem?_setUnless {f : α → β}
    {a' : α} (hm : m[k]? = some a) (hf : f a' = f a) (hNull : isNull a' = false) (k' : κ) :
    (setUnless isNull m k a')[k']?.map f = m[k']?.map f := by
  rw [getElem?_setUnless]
  split
  case isTrue hEq =>
    subst hEq
    rw [hNull, hm]
    exact congrArg some hf
  case isFalse => rfl

/-- Writing under a new key keeps every entry and adds at most the new one. -/
theorem getElem?_setUnless_new (h : m[k]? = none) (k' : κ) (a' : α) :
    (setUnless isNull m k a)[k']? = some a' ↔
      m[k']? = some a' ∨ (k' = k ∧ a' = a ∧ isNull a = false) := by
  rw [getElem?_setUnless]
  by_cases hEq : k = k'
  · subst hEq
    cases hNull : isNull a <;> simp [h, eq_comm]
  · simp [hEq, Ne.symm hEq]

/-- Writing an entry twice is writing it once. -/
theorem setUnless_twice (isNull : α → Bool) (m : Map κ α) (k : κ) (a b : α) :
    setUnless isNull (setUnless isNull m k a) k b = setUnless isNull m k b := by
  apply ext_getElem?
  intro k'
  simp only [getElem?_setUnless]
  split <;> rfl

/-- Writing back what is there changes nothing. -/
theorem setUnless_self (h : m[k]? = some a)
    (hNull : isNull a = false) : setUnless isNull m k a = m := by
  apply ext_getElem?
  intro k'
  rw [getElem?_setUnless, hNull]
  split
  case isTrue hEq =>
    subst hEq
    exact h.symm
  case isFalse => rfl

/-- Apply `f` to the value at `k`, starting from `zero` when there is none. -/
def upsert (m : Map κ α) (k : κ) (zero : α) (f : α → α) : Map κ α :=
  m.insert k (f (m[k]?.getD zero))

theorem getElem?_upsert (m : Map κ α) (k k' : κ) (zero : α) (f : α → α) :
    (upsert m k zero f)[k']? = if k = k' then some (f (m[k]?.getD zero)) else m[k']? := by
  simp [upsert, getElem?_insert]

/-- Pour a map into another, entry by entry: `merge` gets what the target has under the key. -/
def pour {β : Type} (merge : Option β → α → Option β) (target : Map κ β) (m : Map κ α) : Map κ β :=
  m.toList.foldl (fun target it => target.alter it.1 (merge · it.2)) target

/-- Under a key that is listed once, the merge of its entry; under any other, the target. -/
theorem getElem?_foldl_alter (merge : Option β → α → Option β) (l : List (κ × α))
    (hNodup : (l.map Prod.fst).Nodup) (target : Map κ β) (k : κ) :
    (∀ a, (k, a) ∈ l → (l.foldl (fun target it => target.alter it.1 (merge · it.2)) target)[k]? =
      merge target[k]? a) ∧
    (k ∉ l.map Prod.fst →
      (l.foldl (fun target it => target.alter it.1 (merge · it.2)) target)[k]? = target[k]?) := by
  induction l generalizing target with
  | nil => simp
  | cons it rest ih =>
    rw [List.map_cons, List.nodup_cons] at hNodup
    obtain ⟨hOnce, hMiss⟩ := ih hNodup.2 (target.alter it.1 (merge · it.2))
    have hAt : ∀ j, (target.alter it.1 (merge · it.2))[j]? =
        if it.1 = j then merge target[j]? it.2 else target[j]? := by
      intro j
      rw [getElem?_alter]
      by_cases hEq : it.1 = j
      · subst hEq
        simp
      · simp [hEq]
    rw [List.foldl_cons]
    constructor
    · intro a ha
      rcases List.mem_cons.mp ha with hHead | hTail
      · subst hHead
        rw [hMiss hNodup.1, hAt, if_pos rfl]
      · have hNe : it.1 ≠ k := fun hEq =>
          hNodup.1 (hEq ▸ List.mem_map.mpr ⟨(k, a), hTail, rfl⟩)
        rw [hOnce a hTail, hAt, if_neg hNe]
    · intro hNot
      rw [List.map_cons, List.mem_cons, not_or] at hNot
      rw [hMiss hNot.2, hAt, if_neg (Ne.symm hNot.1)]

theorem getElem?_pour (merge : Option β → α → Option β) (target : Map κ β)
    (m : Map κ α) (k : κ) : (pour merge target m)[k]? = match m[k]? with
      | some a => merge target[k]? a
      | none => target[k]? := by
  have hNodup : (m.toList.map Prod.fst).Nodup := by
    rw [map_fst_toList_eq_keys]
    exact nodup_keys m
  obtain ⟨hOnce, hMiss⟩ := getElem?_foldl_alter merge m.toList hNodup target k
  cases hk : m[k]? with
  | some a => exact hOnce a (mem_toList_iff_getElem?_eq_some.mpr hk)
  | none =>
    refine hMiss fun hMem => ?_
    rw [map_fst_toList_eq_keys, mem_keys_iff, hk] at hMem
    cases hMem

/-- A change at one key. -/
theorem getElem?_modify_eq (m : Map κ α) (k k' : κ) (f : α → α) :
    (m.modify k f)[k']? = (m[k']?).map fun a => if k = k' then f a else a := by
  rw [getElem?_modify]
  by_cases hEq : k = k'
  · subst hEq
    simp
  · simp [hEq]

/-- The same change at each of some keys. -/
theorem getElem?_foldl_modify (f : α → α) (ks : List κ) (hNodup : ks.Nodup) (m : Map κ α)
    (k : κ) : (ks.foldl (fun m k => m.modify k f) m)[k]? =
      (m[k]?).map fun a => if k ∈ ks then f a else a := by
  induction ks generalizing m with
  | nil => simp
  | cons j ks ih =>
    rw [List.nodup_cons] at hNodup
    rw [List.foldl_cons, ih hNodup.2, getElem?_modify_eq, Option.map_map]
    congr 1
    funext a
    by_cases hEq : j = k
    · subst hEq
      simp [hNodup.1]
    · simp [hEq, Ne.symm hEq]

/-- Entering a value under several keys, where nothing is yet. -/
theorem getElem?_foldl_insertIfNew (a : α) (ks : List κ) (m : Map κ α) (k : κ) :
    (ks.foldl (fun m k => m.insertIfNew k a) m)[k]? =
      (m[k]?).or (if k ∈ ks then some a else none) := by
  induction ks generalizing m with
  | nil => simp
  | cons j ks ih =>
    rw [List.foldl_cons, ih, getElem?_insertIfNew]
    by_cases hEq : j = k
    · subst hEq
      cases hOld : m[j]? with
      | none =>
        have hNot : j ∉ m := by
          rw [← isSome_getElem?_iff_mem, hOld]
          exact Bool.false_ne_true
        simp [hNot]
      | some b =>
        have hIn : j ∈ m := by
          rw [← isSome_getElem?_iff_mem, hOld]
          rfl
        simp [hIn]
    · simp [hEq, Ne.symm hEq]

omit [DecidableEq κ] in
/-- Writing several entries leaves the other keys. -/
theorem getElem?_foldl_insert_ne (key : γ → κ) (val : γ → α) {l : List γ}
    (hNot : k ∉ l.map key) (m : Map κ α) :
    (l.foldl (fun m x => m.insert (key x) (val x)) m)[k]? = m[k]? := by
  induction l generalizing m with
  | nil => rfl
  | cons x rest ih =>
    rw [List.map_cons, List.mem_cons, not_or] at hNot
    rw [List.foldl_cons, ih hNot.2, getElem?_insert, if_neg]
    simpa using Ne.symm hNot.1

omit [DecidableEq κ] in
/-- Writing several entries under keys of their own. -/
theorem getElem?_foldl_insert (key : γ → κ) (val : γ → α) {l : List γ}
    (hNodup : (l.map key).Nodup) {x : γ} (hMem : x ∈ l) (m : Map κ α) :
    (l.foldl (fun m x => m.insert (key x) (val x)) m)[key x]? = some (val x) := by
  induction l generalizing m with
  | nil => cases hMem
  | cons y rest ih =>
    rw [List.map_cons, List.nodup_cons] at hNodup
    rw [List.foldl_cons]
    rcases List.mem_cons.mp hMem with rfl | hRest
    · rw [getElem?_foldl_insert_ne key val hNodup.1, getElem?_insert_self]
    · exact ih hNodup.2 hRest (m.insert (key y) (val y))

theorem getElem?_foldl_erase (ks : List κ) (m : Map κ α) (k : κ) :
    (ks.foldl (fun m k => m.erase k) m)[k]? = if k ∈ ks then none else m[k]? := by
  induction ks generalizing m with
  | nil => simp
  | cons j ks ih =>
    rw [List.foldl_cons, ih, getElem?_erase]
    by_cases hEq : j = k
    · subst hEq
      simp
    · simp [hEq, Ne.symm hEq]

/-- Writing several entries enters each key. -/
theorem isSome_foldl_insert (l : List (κ × α)) (m : Map κ α) (hMem : k ∈ l.map (·.1)) :
    ((l.foldl (fun m it => m.insert it.1 it.2) m)[k]?).isSome = true := by
  induction l generalizing m with
  | nil => cases hMem
  | cons it rest ih =>
    rw [List.foldl_cons]
    by_cases hRest : k ∈ rest.map (·.1)
    · exact ih _ hRest
    · have hEq : k = it.1 := (List.mem_cons.mp hMem).resolve_right hRest
      rw [getElem?_foldl_insert_ne (fun it : κ × α => it.1) (fun it => it.2) hRest, hEq,
        getElem?_insert_self]
      rfl

/-- The entries of these keys are gone, and no other has changed. -/
def Undone (ks : List κ) (before after : Map κ α) : Prop :=
  ∀ k, after[k]? = if k ∈ ks then none else before[k]?

/-- **Entries that are written and erased again.** -/
theorem undone_iff {ks : List κ} : Undone (l.map (·.1)) m
        (ks.foldl (fun m k => m.erase k) (l.foldl (fun m it => m.insert it.1 it.2) m)) ↔
      (∀ k ∈ l.map (·.1), k ∈ ks) ∧ ∀ k ∈ ks, k ∉ l.map (·.1) → m[k]? = none := by
  have hOther : ∀ {k}, k ∉ l.map (·.1) → (l.foldl (fun m it => m.insert it.1 it.2) m)[k]? = m[k]? :=
    fun hNot => getElem?_foldl_insert_ne (fun it : κ × α => it.1) (fun it => it.2) hNot m
  constructor
  · intro h
    refine ⟨fun k hk => ?_, fun k hk hNot => ?_⟩
    · by_contra hNot
      have hAt := h k
      rw [getElem?_foldl_erase, if_neg hNot, if_pos hk] at hAt
      have hSome := isSome_foldl_insert l m hk
      rw [hAt] at hSome
      cases hSome
    · have hAt := h k
      rw [getElem?_foldl_erase, if_pos hk, if_neg hNot] at hAt
      exact hAt.symm
  · rintro ⟨hFound, hExtra⟩ k
    rw [getElem?_foldl_erase]
    by_cases hErased : k ∈ ks
    · rw [if_pos hErased]
      by_cases hWritten : k ∈ l.map (·.1)
      · rw [if_pos hWritten]
      · rw [if_neg hWritten, hExtra k hErased hWritten]
    · have hNot : k ∉ l.map (·.1) := fun hk => hErased (hFound k hk)
      rw [if_neg hErased, if_neg hNot, hOther hNot]

/-- Without erasing nothing may be written. -/
theorem undone_foldl_insert_iff :
    Undone (l.map (·.1)) m (l.foldl (fun m it => m.insert it.1 it.2) m) ↔ l = [] := by
  have hErase : Undone (l.map (·.1)) m (([] : List κ).foldl (fun m k => m.erase k)
      (l.foldl (fun m it => m.insert it.1 it.2) m)) ↔ _ := undone_iff
  rw [List.foldl_nil] at hErase
  rw [hErase]
  simp [List.eq_nil_iff_forall_not_mem]

omit [Std.LawfulEqOrd κ] [DecidableEq κ] in
/-- Where no value is null, every one is written. -/
theorem foldl_setUnless_eq (h : ∀ it ∈ l, isNull it.2 = false) (m : Map κ α) :
    l.foldl (fun m it => setUnless isNull m it.1 it.2) m =
      l.foldl (fun m it => m.insert it.1 it.2) m := by
  induction l generalizing m with
  | nil => rfl
  | cons it rest ih =>
    rw [List.foldl_cons, List.foldl_cons, setUnless,
      if_neg (by rw [h it (List.mem_cons_self ..)]; exact Bool.false_ne_true)]
    exact ih (fun it' hMem => h it' (List.mem_cons_of_mem it hMem)) _

end Map

end Electrum
