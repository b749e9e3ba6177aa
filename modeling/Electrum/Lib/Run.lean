import Mathlib.Logic.Relation

/-!
# Runs of a transition system

What every step of a run does, the whole run does: an invariant of the steps holds at the end,
and a reflexive and transitive relation that every step respects relates start and end.
-/

namespace Electrum

variable {σ : Type} {step : σ → σ → Prop} {s t : σ} {Inv : σ → Prop}

/-- **Run rule.** Steps from states with the invariant keep it and respect the relation. -/
theorem run_induction (hRun : Relation.ReflTransGen step s t)
    {R : σ → σ → Prop} (hs : Inv s) (hRefl : ∀ s, R s s) (hTrans : ∀ s t u, R s t → R t u → R s u)
    (hStep : ∀ s t, Inv s → step s t → Inv t ∧ R s t) : Inv t ∧ R s t := by
  induction hRun with
  | refl => exact ⟨hs, hRefl s⟩
  | tail _ hLast ih =>
    obtain ⟨hInv, hRel⟩ := hStep _ _ ih.1 hLast
    exact ⟨hInv, hTrans _ _ _ ih.2 hRel⟩

/-- The rule for an invariant alone. -/
theorem run_invariant (hRun : Relation.ReflTransGen step s t)
    (hs : Inv s) (hStep : ∀ s t, Inv s → step s t → Inv t) : Inv t := by
  induction hRun with
  | refl => exact hs
  | tail _ hLast ih => exact hStep _ _ ih hLast

end Electrum
