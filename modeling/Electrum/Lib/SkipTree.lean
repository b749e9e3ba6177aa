import Mathlib

/-!
# Trees of nodes with skip pointers

A node of a tree points to its parent and, further down, to one more of its ancestors.  A walk to
the ancestor at a given height takes the far pointer where a rule says so and the parent elsewhere.

Main results:
* `ancestorAt_eq_back` — whatever the rule, the walk finds the ancestor the parents lead to
* `back_add` — walks along the parents compose
* `path` — the last nodes of a branch, as a list
-/

namespace Electrum

open Option

/-- When a walk from one height to a lower one takes the far pointer, and where that leads. -/
structure SkipRule where
  /-- the height of the node the far pointer of a node leads to -/
  jump : Nat → Nat
  /-- whether a walk at a height takes the far pointer towards the target -/
  follow : Nat → Nat → Bool
  jump_lt : ∀ height, 0 < height → jump height < height
  le_jump : ∀ height target, follow height target = true → target ≤ jump height

/-- The pointers of the nodes, and their heights. -/
structure SkipLinks (P : Type) where
  pprev : P → Option P
  pskip : P → Option P
  nHeight : P → Nat

namespace SkipLinks

variable {P : Type} (t : SkipLinks P)

/-- The node that many parents down. -/
def back : Nat → P → Option P
  | 0, p => some p
  | n + 1, p => (t.pprev p).bind (back n)

/-- The node and its ancestors, that many of them if there are. -/
def path : Nat → P → List P
  | 0, _ => []
  | n + 1, p =>
    p :: match t.pprev p with
      | some q => path n q
      | none => []

/-- The walk towards a height, from a node and its height.  No node without a parent is left. -/
def descend (rule : SkipRule) (target : Nat) : Nat → P → Nat → Option P
  | 0, p, height => if target < height then none else some p
  | fuel + 1, p, height =>
    if target < height then
      match t.pskip p, rule.follow height target with
      | some s, true => descend rule target fuel s (rule.jump height)
      | _, _ => (t.pprev p).bind fun q => descend rule target fuel q (height - 1)
    else some p

/-- The ancestor of the node at a height, if there is one. -/
def ancestorAt (rule : SkipRule) (p : P) (height : Int) : Option P :=
  if t.nHeight p < height ∨ height < 0 then none
  else t.descend rule height.toNat (t.nHeight p) p (t.nHeight p)

/-- The second node is the first one or a descendant of it. -/
def Under (p q : P) : Prop := ∃ n, t.back n q = some p

end SkipLinks

/-- The pointers of a tree: a node is one higher than its parent, and its far pointer was found from
there. -/
structure SkipTree (rule : SkipRule) (P : Type) extends SkipLinks P where
  nHeight_eq : ∀ p, nHeight p = (pprev p).elim 0 fun q => nHeight q + 1
  pskip_eq : ∀ p, pskip p =
    (pprev p).bind fun q => toSkipLinks.ancestorAt rule q (rule.jump (nHeight p))

namespace SkipTree

variable {rule : SkipRule} {P : Type} (t : SkipTree rule P)

/-! ## Walks along the parents -/

variable {p q : P} {n : Nat}

theorem nHeight_of_pprev (hParent : t.pprev p = some q) : t.nHeight p = t.nHeight q + 1 := by
  rw [t.nHeight_eq p, hParent]
  rfl

theorem nHeight_of_root (hRoot : t.pprev p = none) : t.nHeight p = 0 := by
  rw [t.nHeight_eq p, hRoot]
  rfl

theorem back_add (m n : Nat) (p : P) : t.back (m + n) p = (t.back m p).bind (t.back n) := by
  induction m generalizing p with
  | zero => simp [SkipLinks.back]
  | succ m ih =>
    rw [Nat.succ_add]
    cases hParent : t.pprev p with
    | none => simp [SkipLinks.back, hParent]
    | some q => simp [SkipLinks.back, hParent, ih]

/-- A walk down that stays above the root arrives, at the height it should. -/
theorem back_eq_some (hHigh : n ≤ t.nHeight p) :
    ∃ s, t.back n p = some s ∧ t.nHeight s + n = t.nHeight p := by
  induction n generalizing p with
  | zero => exact ⟨p, rfl, rfl⟩
  | succ n ih =>
    cases hParent : t.pprev p with
    | none =>
      have hRoot := t.nHeight_of_root hParent
      omega
    | some q =>
      have hUp := t.nHeight_of_pprev hParent
      obtain ⟨s, hBack, hHeight⟩ := ih (p := q) (by omega)
      refine ⟨s, ?_, by omega⟩
      simp [SkipLinks.back, hParent, hBack]

theorem back_eq_none (hLow : t.nHeight p < n) : t.back n p = none := by
  induction n generalizing p with
  | zero => omega
  | succ n ih =>
    cases hParent : t.pprev p with
    | none => simp [SkipLinks.back, hParent]
    | some q =>
      have hUp := t.nHeight_of_pprev hParent
      simp [SkipLinks.back, hParent, ih (p := q) (by omega)]

theorem nHeight_of_back {s : P} (hBack : t.back n p = some s) : t.nHeight s + n = t.nHeight p := by
  rcases Nat.lt_or_ge (t.nHeight p) n with hLow | hHigh
  · rw [t.back_eq_none hLow] at hBack
    cases hBack
  · obtain ⟨s', hBack', hHeight⟩ := t.back_eq_some hHigh
    rw [hBack] at hBack'
    cases hBack'
    exact hHeight

/-! ## Walks with far pointers -/

theorem back_parent (hParent : t.pprev p = some q) {target : Nat} (hTarget : target ≤ t.nHeight q) :
    t.back (t.nHeight p - target) p = t.back (t.nHeight q - target) q := by
  have hUp := t.nHeight_of_pprev hParent
  have hSteps : t.nHeight p - target = t.nHeight q - target + 1 := by omega
  rw [hSteps]
  simp [SkipLinks.back, hParent]

/-- **Far pointers make no difference.**  By induction on the height of the node: its far pointer
was found from its parent, and leads where the parents would. -/
theorem descend_eq_back (height : Nat) :
    ∀ {p : P} {target fuel : Nat}, t.nHeight p = height → target ≤ height → height ≤ fuel →
      t.descend rule target fuel p height = t.back (height - target) p := by
  induction height using Nat.strong_induction_on with
  | _ height ih =>
    intro p target fuel hHeight hTarget hFuel
    subst hHeight
    rcases Nat.eq_or_lt_of_le hTarget with hHere | hAbove
    · rw [hHere]
      cases fuel <;> simp [SkipLinks.descend, SkipLinks.back]
    · obtain ⟨fuel, rfl⟩ : ∃ n, fuel = n + 1 := ⟨fuel - 1, by omega⟩
      cases hParent : t.pprev p with
      | none =>
        have hRoot := t.nHeight_of_root hParent
        omega
      | some q =>
        have hUp := t.nHeight_of_pprev hParent
        have hJump := rule.jump_lt (t.nHeight p) (by omega)
        have hStep : t.descend rule target fuel q (t.nHeight p - 1) =
            t.back (t.nHeight p - target) p := by
          rw [ih (t.nHeight p - 1) (by omega) (by omega) (by omega) (by omega),
            t.back_parent hParent (by omega)]
          congr 1
          omega
        -- the far pointer, as it was found from the parent
        have hSkip : t.pskip p = t.back (t.nHeight p - rule.jump (t.nHeight p)) p := by
          have hRange : ¬ ((t.nHeight q : Int) < (rule.jump (t.nHeight p) : Int) ∨
              (rule.jump (t.nHeight p) : Int) < 0) := by omega
          rw [t.pskip_eq p, hParent, bind_some, SkipLinks.ancestorAt,
            if_neg hRange, Int.toNat_natCast, ih (t.nHeight q) (by omega) rfl (by omega) le_rfl,
            t.back_parent hParent (by omega)]
        rw [SkipLinks.descend, if_pos hAbove]
        cases hFollow : rule.follow (t.nHeight p) target with
        | false => simpa [hParent] using hStep
        | true =>
          have hLand := rule.le_jump _ target hFollow
          obtain ⟨s, hBack, hLow⟩ :=
            t.back_eq_some (p := p) (n := t.nHeight p - rule.jump (t.nHeight p)) (by omega)
          have hAt : t.nHeight s = rule.jump (t.nHeight p) := by omega
          rw [hSkip, hBack]
          show t.descend rule target fuel s (rule.jump (t.nHeight p)) = _
          rw [ih (rule.jump (t.nHeight p)) hJump hAt hLand (by omega)]
          have hSplit : t.nHeight p - target =
              (t.nHeight p - rule.jump (t.nHeight p)) + (rule.jump (t.nHeight p) - target) := by omega
          rw [hSplit, t.back_add, hBack, bind_some]

/-- **The walk finds the ancestor the parents lead to.** -/
theorem ancestorAt_eq_back (p : P) (steps : Nat) :
    t.ancestorAt rule p ((t.nHeight p : Int) - steps) = t.back steps p := by
  rw [SkipLinks.ancestorAt]
  rcases Nat.lt_or_ge (t.nHeight p) steps with hLow | hHigh
  · rw [if_pos (Or.inr (by omega)), t.back_eq_none hLow]
  · have hTarget : ((t.nHeight p : Int) - steps).toNat = t.nHeight p - steps := by omega
    rw [if_neg (by omega), t.descend_eq_back _ rfl (by omega) le_rfl]
    congr 1
    omega

/-! ## Branches -/

/-- Of two ancestors of a node the higher one is under the lower one. -/
theorem back_under {m : Nat} {r : P} (hLow : t.back n r = some p) (hHigh : t.back m r = some q)
    (hLe : m ≤ n) : t.back (n - m) q = some p := by
  have hSplit : t.back (m + (n - m)) r = some p := by
    rw [Nat.add_sub_cancel' hLe]
    exact hLow
  rw [t.back_add, hHigh] at hSplit
  exact hSplit

end SkipTree

/-! ## The tree with one branch -/

/-- The nodes are their own heights. -/
def SkipLinks.line (rule : SkipRule) : SkipLinks Nat where
  pprev p := if p = 0 then none else some (p - 1)
  pskip p := if p = 0 then none else some (rule.jump p)
  nHeight p := p

theorem SkipLinks.descend_line (rule : SkipRule) (target fuel p : Nat)
    (hTarget : target ≤ p) (hFuel : p ≤ fuel) :
    (SkipLinks.line rule).descend rule target fuel p p = some target := by
  induction fuel generalizing p with
  | zero =>
    have hZero : p = target := by omega
    simp [SkipLinks.descend, hZero]
  | succ fuel ih =>
    rw [SkipLinks.descend]
    split_ifs with hAbove
    · have hPos : p ≠ 0 := by omega
      have hJump := rule.jump_lt p (by omega)
      have hParent : (SkipLinks.line rule).pprev p = some (p - 1) := if_neg hPos
      have hSkip : (SkipLinks.line rule).pskip p = some (rule.jump p) := if_neg hPos
      rw [hSkip, hParent]
      cases hFollow : rule.follow p target with
      | false => exact ih (p - 1) (by omega) (by omega)
      | true => exact ih (rule.jump p) (rule.le_jump p target hFollow) (by omega)
    · have hHere : p = target := by omega
      rw [hHere]

/-- A branch without forks. -/
def SkipTree.line (rule : SkipRule) : SkipTree rule Nat where
  toSkipLinks := SkipLinks.line rule
  nHeight_eq p := by
    by_cases hZero : p = 0
    · simp [SkipLinks.line, hZero]
    · simp only [SkipLinks.line, if_neg hZero, elim_some]
      omega
  pskip_eq p := by
    by_cases hZero : p = 0
    · simp [SkipLinks.line, hZero]
    · have hJump := rule.jump_lt p (by omega)
      have hRange : ¬ (((p - 1 : Nat) : Int) < (rule.jump p : Int) ∨ (rule.jump p : Int) < 0) := by
        omega
      have hWalk := SkipLinks.descend_line rule (rule.jump p) (p - 1) (p - 1) (by omega) le_rfl
      show (if p = 0 then none else some (rule.jump p)) =
        (if p = 0 then none else some (p - 1)).bind _
      rw [if_neg hZero, if_neg hZero, bind_some, SkipLinks.ancestorAt]
      show _ = if ((p - 1 : Nat) : Int) < (rule.jump p : Int) ∨ (rule.jump p : Int) < 0 then none
        else (SkipLinks.line rule).descend rule ((rule.jump p : Int)).toNat (p - 1) (p - 1) (p - 1)
      rw [if_neg hRange, Int.toNat_natCast, hWalk]

end Electrum
