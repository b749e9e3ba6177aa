import Mathlib

/-!
# Invariants of loops

A loop of the program that can fail is a `foldlM` in `Option` or `Except`.  The rules below
carry a property from one turn of such a loop to its end; the property may mention the
elements already visited.
-/

namespace Electrum

open List Option

variable {α β ε : Type} {γ : Type} {x : Except ε α} {l : List α} {b r : β} {f : β → α → Option β}
  {σ κ : Type} {keys : List κ} {s : σ}

theorem Except.bind_eq_ok {f : α → Except ε γ} {r : γ} :
    (x >>= f) = .ok r ↔ ∃ a, x = .ok a ∧ f a = .ok r := by
  cases x with
  | error e => simp [bind, Except.bind]
  | ok a => simp [bind, Except.bind]

/-! ## Runs that can be evaluated -/

instance decidableSome (o : Option α) (P : α → Prop) [DecidablePred P] :
    Decidable (∃ a, o = some a ∧ P a) :=
  match o with
  | none => isFalse (by simp)
  | some a => decidable_of_iff (P a) (by simp)

instance decidableSomePair (o : Option (α × β)) (P : α → β → Prop) [∀ a b, Decidable (P a b)] :
    Decidable (∃ a b, o = some (a, b) ∧ P a b) :=
  decidable_of_iff (∃ x, o = some x ∧ P x.1 x.2) Prod.exists

instance decidableSomeTriple (o : Option (α × β × γ)) (P : α → β → γ → Prop)
    [∀ a b c, Decidable (P a b c)] :
    Decidable (∃ a b c, o = some (a, b, c) ∧ P a b c) :=
  decidable_of_iff (∃ a x, o = some (a, x) ∧ P a x.1 x.2) (by simp only [Prod.exists])

instance decidableOk (x : Except ε α) (P : α → Prop) [DecidablePred P] :
    Decidable (∃ a, x = .ok a ∧ P a) :=
  match x with
  | .error _ => isFalse (by simp)
  | .ok a => decidable_of_iff (P a) (by simp)

/-! ## Invariants -/

/-- The element of a turn of a loop with a counter. -/
theorem mem_of_zipIdx_split {n : Nat} {it : α × Nat} {done rest : List (α × Nat)}
    (h : l.zipIdx n = done ++ it :: rest) : it.1 ∈ l := by
  have hIt : it.1 ∈ (l.zipIdx n).map Prod.fst := by
    rw [h]
    simp
  rwa [zipIdx_map_fst] at hIt

/-- A property that every turn preserves holds at the end of a loop that does not fail. -/
theorem foldlM_option_invariant {f : β → α → Option β} (P : List α → β → Prop) (l : List α)
    {b r : β} (hInit : P [] b)
    (hStep : ∀ done x rest b b', l = done ++ x :: rest → P done b → f b x = some b' →
      P (done ++ [x]) b') (h : l.foldlM f b = some r) : P l r := by
  -- generalise over the part of the list already visited
  suffices hGen : ∀ rest done b, l = done ++ rest → P done b → rest.foldlM f b = some r →
      P l r from hGen l [] b rfl hInit h
  intro rest
  induction rest with
  | nil =>
    intro done b hl hP hr
    simp only [foldlM_nil, pure, some.injEq] at hr
    simpa [hl, ← hr] using hP
  | cons x rest ih =>
    intro done b hl hP hr
    rw [foldlM_cons, bind_eq_bind, bind_eq_some_iff] at hr
    obtain ⟨b', hb', hr⟩ := hr
    exact ih (done ++ [x]) b' (by simp [hl]) (hStep done x rest b b' hl hP hb') hr

/-- The same for a loop that cannot fail. -/
theorem foldl_invariant {f : β → α → β} (P : List α → β → Prop) (l : List α) (hInit : P [] b)
    (hStep : ∀ done x rest b, l = done ++ x :: rest → P done b → P (done ++ [x]) (f b x)) :
    P l (l.foldl f b) := by
  refine foldlM_option_invariant P l hInit ?_ foldlM_pure
  intro done x rest b b' hl hP hb'
  cases hb'
  exact hStep done x rest b hl hP

/-- What an exception says makes no difference to a loop. -/
theorem foldlM_toOption {f : β → α → Except ε β} (l : List α) (b : β) :
    (l.foldlM f b).toOption = l.foldlM (fun b x => (f b x).toOption) b := by
  induction l generalizing b with
  | nil => rfl
  | cons x rest ih =>
    rw [foldlM_cons, foldlM_cons]
    cases f b x with
    | error e => rfl
    | ok b' => exact ih b'

/-- The same for a loop that may throw. -/
theorem foldlM_except_invariant {f : β → α → Except ε β} (P : List α → β → Prop) (l : List α)
    (hInit : P [] b)
    (hStep : ∀ done x rest b b', l = done ++ x :: rest → P done b → f b x = .ok b' →
      P (done ++ [x]) b') (h : l.foldlM f b = .ok r) : P l r := by
  refine foldlM_option_invariant P l hInit (fun done x rest b b' hl hP hb' => ?_)
    ((foldlM_toOption l b).symm.trans (congrArg Except.toOption h))
  cases hx : f b x with
  | error e => simp [hx, Except.toOption] at hb'
  | ok c =>
    rw [hx] at hb'
    cases hb'
    exact hStep done x rest b _ hl hP hx

/-- A map that commutes with every turn of a loop commutes with the loop. -/
theorem foldlM_option_map {f' : γ → α → Option γ} (g : β → γ)
    (hStep : ∀ b x, (f b x).map g = f' (g b) x) (l : List α) (b : β) :
    (l.foldlM f b).map g = l.foldlM f' (g b) := by
  induction l generalizing b with
  | nil => rfl
  | cons x l ih =>
    rw [foldlM_cons, foldlM_cons, ← hStep]
    cases f b x with
    | none => rfl
    | some b' => exact ih b'

/-- A loop of which no turn fails. -/
theorem foldlM_option_total
    (h : ∀ b, ∀ x ∈ l, ∃ b', f b x = some b') (b : β) : ∃ r, l.foldlM f b = some r := by
  induction l generalizing b with
  | nil => exact ⟨b, rfl⟩
  | cons x rest ih =>
    obtain ⟨b', hStep⟩ := h b x (mem_cons_self ..)
    obtain ⟨r, hRest⟩ := ih (fun b y hy => h b y (mem_cons_of_mem x hy)) b'
    refine ⟨r, ?_⟩
    rw [foldlM_cons, hStep]
    exact hRest

/-- **Loops over keys.** When the turn for a key touches only what `get` reads under that key,
a key that is visited once ends up as its own turn leaves it, from a state in which it was
still as at the start; the other keys keep what they had. -/
theorem foldlM_turn (get : σ → κ → γ) {f : σ → κ → Option σ} (Inv : σ → Prop)
    (hInv : ∀ s k s', Inv s → f s k = some s' → Inv s')
    (hFrame : ∀ s k s' k', Inv s → f s k = some s' → k' ≠ k → get s' k' = get s k')
    (hNodup : keys.Nodup) {r : σ} (hs : Inv s) (h : keys.foldlM f s = some r) :
    Inv r ∧ ∀ k, (k ∉ keys → get r k = get s k) ∧
      (k ∈ keys → ∃ mid mid', Inv mid ∧ get mid k = get s k ∧ f mid k = some mid' ∧
        get r k = get mid' k) := by
  induction keys generalizing s with
  | nil =>
    cases h
    exact ⟨hs, fun k => ⟨fun _ => rfl, fun hk => by cases hk⟩⟩
  | cons key rest ih =>
    obtain ⟨hNot, hRest⟩ := nodup_cons.mp hNodup
    rw [foldlM_cons, bind_eq_bind, bind_eq_some_iff] at h
    obtain ⟨s', hStep, h⟩ := h
    obtain ⟨hEnd, hKeys⟩ := ih hRest (hInv s key s' hs hStep) h
    refine ⟨hEnd, fun k => ⟨?_, ?_⟩⟩
    · intro hk
      rw [mem_cons, not_or] at hk
      rw [(hKeys k).1 hk.2]
      exact hFrame s key s' k hs hStep hk.1
    · intro hk
      by_cases hEq : k = key
      · -- its own turn comes first, and later turns leave it alone
        subst hEq
        exact ⟨s, s', hs, rfl, hStep, (hKeys k).1 hNot⟩
      · have hMem : k ∈ rest := (mem_cons.mp hk).resolve_left hEq
        obtain ⟨mid, mid', hMid, hSame, hTurn, hEnd'⟩ := (hKeys k).2 hMem
        exact ⟨mid, mid', hMid, hSame.trans (hFrame s key s' k hs hStep hEq), hTurn, hEnd'⟩

/-- The same for a loop that cannot fail. -/
theorem foldl_turn (get : σ → κ → γ) {f : σ → κ → σ} (Inv : σ → Prop)
    (hInv : ∀ s k, Inv s → Inv (f s k))
    (hFrame : ∀ s k k', Inv s → k' ≠ k → get (f s k) k' = get s k')
    (hNodup : keys.Nodup) (hs : Inv s) :
    Inv (keys.foldl f s) ∧ ∀ k, (k ∉ keys → get (keys.foldl f s) k = get s k) ∧
      (k ∈ keys → ∃ mid, Inv mid ∧ get mid k = get s k ∧
        get (keys.foldl f s) k = get (f mid k) k) := by
  obtain ⟨hEnd, hKeys⟩ := foldlM_turn get (f := fun s k => some (f s k)) Inv
    (fun s k s' hs h => some.inj h ▸ hInv s k hs)
    (fun s k s' k' hs h hne => some.inj h ▸ hFrame s k k' hs hne) hNodup hs foldlM_pure
  refine ⟨hEnd, fun k => ⟨(hKeys k).1, fun hk => ?_⟩⟩
  obtain ⟨mid, mid', hMid, hSame, hTurn, hEnd'⟩ := (hKeys k).2 hk
  cases hTurn
  exact ⟨mid, hMid, hSame, hEnd'⟩

end Electrum
