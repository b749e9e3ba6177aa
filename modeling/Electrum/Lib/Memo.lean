import Mathlib

/-!
# Memoised recursion along a chain of keys

The value of a key is given at once, or computed from the value of the key before it.  The memoised
evaluation walks back to a key whose value is known and fills the cache on the way forward.

Main results:
* `value_base`, `value_step` — the recursion unfolds
* `Memo.eval_spec` — the memoised evaluation gives the value, and a cache that holds values only
* `Memo.evals_sound` — so does any number of them
-/

namespace Electrum

/-- A recursion along a chain of keys that comes to an end. -/
structure ChainRec (κ σ : Type) where
  /-- the value, where the recursion stops -/
  base : κ → Option σ
  prev : κ → κ
  step : κ → σ → σ
  rank : κ → Nat
  rank_prev : ∀ k, base k = none → rank (prev k) < rank k

namespace ChainRec

variable {κ σ : Type} (r : ChainRec κ σ)

/-- The value of a key whose rank is at most the fuel. -/
def valueAt : (fuel : Nat) → (k : κ) → r.rank k ≤ fuel → σ
  | 0, k, hRank =>
    match hBase : r.base k with
    | some v => v
    | none => absurd (r.rank_prev k hBase) (by omega)
  | fuel + 1, k, hRank =>
    match hBase : r.base k with
    | some v => v
    | none => r.step k (valueAt fuel (r.prev k) (by have := r.rank_prev k hBase; omega))

def value (k : κ) : σ := r.valueAt (r.rank k) k le_rfl

variable {k : κ} {v : σ}

theorem valueAt_base {fuel : Nat} {hRank : r.rank k ≤ fuel}
    (hBase : r.base k = some v) : r.valueAt fuel k hRank = v := by
  cases fuel <;> (rw [valueAt]; split <;> simp_all)

/-- More fuel makes no difference. -/
theorem valueAt_fuel {m n : Nat} (hm : r.rank k ≤ m) (hn : r.rank k ≤ n) :
    r.valueAt m k hm = r.valueAt n k hn := by
  induction m generalizing n k with
  | zero =>
    cases hBase : r.base k with
    | some v => rw [r.valueAt_base hBase, r.valueAt_base hBase]
    | none => exact absurd (r.rank_prev k hBase) (by omega)
  | succ m ih =>
    cases hBase : r.base k with
    | some v => rw [r.valueAt_base hBase, r.valueAt_base hBase]
    | none =>
      have hLt := r.rank_prev k hBase
      obtain ⟨n, rfl⟩ : ∃ n', n = n' + 1 := ⟨n - 1, by omega⟩
      rw [valueAt, valueAt]
      split
      next v hv => simp_all
      next hNone => rw [ih (n := n) (k := r.prev k) (by omega) (by omega)]

theorem value_base (hBase : r.base k = some v) : r.value k = v :=
  r.valueAt_base hBase

theorem value_step (hBase : r.base k = none) : r.value k = r.step k (r.value (r.prev k)) := by
  have hLt := r.rank_prev k hBase
  rw [value, r.valueAt_fuel le_rfl (Nat.le_succ (r.rank k)), valueAt]
  split
  next v hv => simp_all
  next hNone => rw [value, r.valueAt_fuel (by omega : r.rank (r.prev k) ≤ r.rank k) le_rfl]

end ChainRec

/-! ## The memoised evaluation -/

/-- The values known so far. -/
abbrev Memo (κ σ : Type) : Type := κ → Option σ

namespace Memo

variable {κ σ : Type}

def empty : Memo κ σ := fun _ => none

variable [DecidableEq κ]

def set (cache : Memo κ σ) (k : κ) (v : σ) : Memo κ σ := Function.update cache k (some v)

/-- Walks back to a key whose value is known; gives the keys passed on the way, the last one
first. -/
def walkBack (r : ChainRec κ σ) :
    (fuel : Nat) → (k : κ) → r.rank k ≤ fuel → List κ → Memo κ σ → List κ × σ × Memo κ σ
  | fuel, k, hRank, todo, cache =>
    match cache k with
    | some v => (todo, v, cache)
    | none =>
      match hBase : r.base k with
      | some v => (todo, v, cache.set k v)
      | none =>
        match fuel with
        | 0 => absurd (r.rank_prev k hBase) (by omega)
        | fuel + 1 =>
          walkBack r fuel (r.prev k) (by have := r.rank_prev k hBase; omega) (k :: todo) cache

/-- Fills the cache on the way forward. -/
def fill (r : ChainRec κ σ) : List κ → σ → Memo κ σ → σ × Memo κ σ
  | [], v, cache => (v, cache)
  | k :: todo, v, cache => fill r todo (r.step k v) (cache.set k (r.step k v))

/-- Evaluates the recursion at a key. -/
def eval (r : ChainRec κ σ) (cache : Memo κ σ) (k : κ) : σ × Memo κ σ :=
  let known := walkBack r (r.rank k) k le_rfl [] cache
  fill r known.1 known.2.1 known.2.2

/-- The cache after some evaluations. -/
def evals (r : ChainRec κ σ) (cache : Memo κ σ) (keys : List κ) : Memo κ σ :=
  keys.foldl (fun cache k => (eval r cache k).2) cache

/-- Every cached value is the key's. -/
def Sound (r : ChainRec κ σ) (cache : Memo κ σ) : Prop :=
  ∀ k v, cache k = some v → v = r.value k

omit [DecidableEq κ] in
theorem empty_sound (r : ChainRec κ σ) : Sound r empty := fun _ _ h => by cases h

variable {r : ChainRec κ σ} {cache : Memo κ σ} {k last : κ}

theorem Sound.set (hSound : Sound r cache) {v : σ}
    (hValue : v = r.value k) : Sound r (cache.set k v) := by
  intro k' v' hAt
  by_cases hKey : k' = k
  · subst hKey
    rw [Memo.set, Function.update_self, Option.some.injEq] at hAt
    rw [← hAt]
    exact hValue
  · rw [Memo.set, Function.update_of_ne hKey] at hAt
    exact hSound k' v' hAt

/-- What is left to compute: each key comes after the one whose value was computed before it, and
the key that was asked for is the last. -/
inductive Pending (r : ChainRec κ σ) (last : κ) : κ → List κ → Prop
  | done : Pending r last last []
  | next {k : κ} {todo : List κ} (hBase : r.base k = none) (hRest : Pending r last k todo) :
      Pending r last (r.prev k) (k :: todo)

theorem fill_spec {todo : List κ} (hPending : Pending r last k todo) (hSound : Sound r cache) :
    (fill r todo (r.value k) cache).1 = r.value last ∧
      Sound r (fill r todo (r.value k) cache).2 := by
  induction hPending generalizing cache with
  | done => exact ⟨rfl, hSound⟩
  | @next k todo hBase hRest ih =>
    rw [fill, ← r.value_step hBase]
    exact ih (hSound.set rfl)

/-- Walking back to a known value collects the keys still to be computed. -/
theorem walkBack_spec :
    ∀ {fuel : Nat} {k : κ} {hRank : r.rank k ≤ fuel} {todo : List κ} {cache : Memo κ σ},
      Pending r last k todo → Sound r cache → ∀ {res}, walkBack r fuel k hRank todo cache = res →
          ∃ k', Pending r last k' res.1 ∧ res.2.1 = r.value k' ∧ Sound r res.2.2 := by
  intro fuel
  induction fuel with
  | zero =>
    intro k hRank todo cache hPending hSound res hRes
    rw [walkBack] at hRes
    split at hRes
    next v hAt =>
      subst hRes
      exact ⟨k, hPending, hSound k v hAt, hSound⟩
    next =>
      split at hRes
      next v hBase =>
        subst hRes
        have hValue := (r.value_base hBase).symm
        exact ⟨k, hPending, hValue, hSound.set hValue⟩
      next hBase => exact absurd (r.rank_prev k hBase) (by omega)
  | succ fuel ih =>
    intro k hRank todo cache hPending hSound res hRes
    rw [walkBack] at hRes
    split at hRes
    next v hAt =>
      subst hRes
      exact ⟨k, hPending, hSound k v hAt, hSound⟩
    next =>
      split at hRes
      next v hBase =>
        subst hRes
        have hValue := (r.value_base hBase).symm
        exact ⟨k, hPending, hValue, hSound.set hValue⟩
      next hBase => exact ih (Pending.next hBase hPending) hSound hRes

/-- **A sound cache makes no difference, and stays sound.** -/
theorem eval_spec (hSound : Sound r cache) (k : κ) :
    (eval r cache k).1 = r.value k ∧ Sound r (eval r cache k).2 := by
  have hStart : Pending r k k [] := .done
  obtain ⟨k', hPending, hValue, hSound'⟩ :=
    walkBack_spec hStart hSound (rfl : walkBack r (r.rank k) k le_rfl [] cache = _)
  rw [eval, hValue]
  exact fill_spec hPending hSound'

theorem evals_sound (keys : List κ) (hSound : Sound r cache) : Sound r (evals r cache keys) := by
  induction keys generalizing cache with
  | nil => exact hSound
  | cons k keys ih => exact ih (eval_spec hSound k).2

end Memo

end Electrum
