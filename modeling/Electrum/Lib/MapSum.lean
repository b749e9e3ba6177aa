import Electrum.Lib.OrderedMap

/-!
# Sums over a map

The sum of a quantity over the values of a map.  A key that is not there adds nothing, so two
maps with the same contribution at every key have the same sum, whatever their keys.

Main results:
* `mapSum_congr` — same contributions, same sum
* `mapSum_change` — one key changes its contribution
-/

namespace Electrum

open List

variable {κ α : Type} [Ord κ] [Std.TransOrd κ] [Std.LawfulEqOrd κ] [DecidableEq κ]

/-- The sum of `f` over the values. -/
def mapSum (f : α → Int) (m : Map κ α) : Int := (m.toList.map fun it => f it.2).sum

/-- What the key `k` adds to the sum. -/
def contribution (f : α → Int) (m : Map κ α) (k : κ) : Int := (m[k]?).elim 0 f

/-- The sum over any finite set of keys that holds those of the map. -/
theorem mapSum_eq_sum (f : α → Int) (m : Map κ α) (keys : Finset κ)
    (hKeys : ∀ k, (m[k]?).isSome = true → k ∈ keys) :
    mapSum f m = ∑ k ∈ keys, contribution f m k := by
  have hList : mapSum f m = ((m.toList.map Prod.fst).map (contribution f m)).sum := by
    rw [mapSum, map_map]
    congr 1
    apply map_congr_left
    intro it hIt
    have hGet := Std.ExtTreeMap.mem_toList_iff_getElem?_eq_some.mp hIt
    rw [Function.comp_apply, contribution, hGet]
    rfl
  have hNodup : (m.toList.map Prod.fst).Nodup := by
    rw [Std.ExtTreeMap.map_fst_toList_eq_keys]
    exact Map.nodup_keys m
  rw [hList, ← sum_toFinset _ hNodup]
  apply Finset.sum_subset
  · intro k hk
    rw [mem_toFinset, Std.ExtTreeMap.map_fst_toList_eq_keys, Map.mem_keys_iff] at hk
    exact hKeys k hk
  · intro k _ hk
    rw [mem_toFinset, Std.ExtTreeMap.map_fst_toList_eq_keys, Map.mem_keys_iff,
      Option.not_isSome_iff_eq_none] at hk
    rw [contribution, hk]
    rfl

/-- The keys of two maps. -/
theorem exists_keys (m m' : Map κ α) : ∃ keys : Finset κ,
    (∀ k, (m[k]?).isSome = true → k ∈ keys) ∧ ∀ k, (m'[k]?).isSome = true → k ∈ keys := by
  refine ⟨m.keys.toFinset ∪ m'.keys.toFinset, fun k hk => ?_, fun k hk => ?_⟩
  · rw [Finset.mem_union, mem_toFinset, Map.mem_keys_iff]
    exact .inl hk
  · rw [Finset.mem_union, mem_toFinset, mem_toFinset, Map.mem_keys_iff, Map.mem_keys_iff]
    exact .inr hk

variable {f f' : α → Int} {m m' : Map κ α}

/-- **Congruence.** -/
theorem mapSum_congr
    (h : ∀ k, contribution f' m' k = contribution f m k) : mapSum f' m' = mapSum f m := by
  obtain ⟨keys, hm, hm'⟩ := exists_keys m m'
  rw [mapSum_eq_sum f m keys hm, mapSum_eq_sum f' m' keys hm']
  exact Finset.sum_congr rfl fun k _ => h k

/-- **Change.** When only the key `k` changes what it adds, the sum changes by that. -/
theorem mapSum_change {k : κ} {c c' : Int}
    (h : ∀ j, j ≠ k → contribution f' m' j = contribution f m j) (hOld : contribution f m k = c)
    (hNew : contribution f' m' k = c') : mapSum f' m' = mapSum f m - c + c' := by
  obtain ⟨keys, hm, hm'⟩ := exists_keys m m'
  have hk : k ∈ insert k keys := Finset.mem_insert_self k keys
  rw [mapSum_eq_sum f m (insert k keys) fun j hj => Finset.mem_insert_of_mem (hm j hj),
    mapSum_eq_sum f' m' (insert k keys) fun j hj => Finset.mem_insert_of_mem (hm' j hj),
    ← Finset.add_sum_erase _ _ hk, ← Finset.add_sum_erase _ (contribution f m) hk]
  have hRest : ∑ j ∈ (insert k keys).erase k, contribution f' m' j =
      ∑ j ∈ (insert k keys).erase k, contribution f m j :=
    Finset.sum_congr rfl fun j hj => h j (Finset.ne_of_mem_erase hj)
  omega

/-- A sum of zeros. -/
theorem mapSum_eq_zero (h : ∀ (k : κ) (a : α), m[k]? = some a → f a = 0) : mapSum f m = 0 := by
  obtain ⟨keys, hm, -⟩ := exists_keys m m
  rw [mapSum_eq_sum f m keys hm]
  apply Finset.sum_eq_zero
  intro k _
  unfold contribution
  cases hk : m[k]? with
  | none => rfl
  | some a => exact h k a hk

/-- A sum of what is not negative. -/
theorem mapSum_nonneg (h : ∀ (k : κ) (a : α), m[k]? = some a → 0 ≤ f a) : 0 ≤ mapSum f m := by
  obtain ⟨keys, hm, -⟩ := exists_keys m m
  rw [mapSum_eq_sum f m keys hm]
  apply Finset.sum_nonneg
  intro k _
  unfold contribution
  cases hk : m[k]? with
  | none => exact Int.le_refl 0
  | some a => exact h k a hk

end Electrum
