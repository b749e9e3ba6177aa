import Mathlib

/-!
# Walks over a finite graph

A walk keeps a set of staged nodes and a set of those that it has seen, takes the least staged node,
and stages its neighbours.  For some neighbours the nodes beyond them may be known already: then
these are added without walking there again.

Main results:
* `walk_spec` — with enough fuel the result is closed, and holds nothing that could not be reached
* `mem_walk` — without known nodes it is what can be reached
* `mem_walk_known` — with known nodes it still is, as far as these are known
* `transGen_addSink`, `transGen_restrict` — the paths when a node is added or nodes are taken out
* `sumOver` — sums over the nodes with a property
-/

namespace Electrum

open Finset

variable {κ : Type} [LinearOrder κ]

/-- The members in order.  `Finset.sort` is the same list, but does not evaluate in the kernel. -/
def inOrder (s : Finset κ) : List κ :=
  Quot.liftOn s.val (List.insertionSort (· ≤ ·)) fun _ _ hPerm =>
    ((List.perm_insertionSort _ _).trans (hPerm.trans (List.perm_insertionSort _ _).symm)).eq_of_pairwise
      (fun _ _ _ _ h h' => le_antisymm h h') (List.pairwise_insertionSort _ _)
      (List.pairwise_insertionSort _ _)

theorem coe_inOrder (s : Finset κ) : (inOrder s : Multiset κ) = s.val := by
  rcases s with ⟨⟨l⟩, hNodup⟩
  exact Quot.sound (List.perm_insertionSort _ l)

variable {x y : κ} {known : κ → Option (Finset κ)} {stage done ground walked : Finset κ}
  {next : κ → Finset κ}

@[simp] theorem mem_inOrder {s : Finset κ} : x ∈ inOrder s ↔ x ∈ s := by
  rw [← Multiset.mem_coe, coe_inOrder, mem_val]

theorem nodup_inOrder (s : Finset κ) : (inOrder s).Nodup := by
  rw [← Multiset.coe_nodup, coe_inOrder]
  exact s.nodup

@[simp] theorem toFinset_inOrder (s : Finset κ) : (inOrder s).toFinset = s := by
  ext x
  simp

/-- There is a path from the one node to the other. -/
abbrev Reaches (next : κ → Finset κ) : κ → κ → Prop :=
  Relation.ReflTransGen fun a b => b ∈ next a

/-- A neighbour of the node that is walked over. -/
def visit (known : κ → Option (Finset κ)) (st : Finset κ × Finset κ) (y : κ) :
    Finset κ × Finset κ :=
  match known y with
  | some ys => (st.1, st.2 ∪ ys)
  | none => if y ∈ st.2 then st else (insert y st.1, st.2)

/-- One turn: the staged node, its neighbours in order. -/
def walkStep (next : κ → Finset κ) (known : κ → Option (Finset κ)) (x : κ)
    (stage done : Finset κ) : Finset κ × Finset κ :=
  (inOrder (next x)).foldl (visit known) (stage.erase x, insert x done)

/-- The nodes seen when nothing is staged any more, or the fuel is used up. -/
def walk (next : κ → Finset κ) (known : κ → Option (Finset κ)) :
    Nat → Finset κ → Finset κ → Finset κ
  | 0, _, done => done
  | fuel + 1, stage, done =>
    if h : stage.Nonempty then
      let st := walkStep next known (stage.min' h) stage done
      walk next known fuel st.1 st.2
    else done

/-! ## One turn -/

/-- A node is dealt with: seen, staged, or the nodes beyond it are known and seen. -/
def Handled (known : κ → Option (Finset κ)) (stage done : Finset κ) (y : κ) : Prop :=
  y ∈ done ∨ y ∈ stage ∨ ∃ ys, known y = some ys ∧ ys ⊆ done

omit [LinearOrder κ] in
theorem Handled.mono {stage' done' : Finset κ}
    (h : Handled known stage done y) (hStage : stage ⊆ stage') (hDone : done ⊆ done') :
    Handled known stage' done' y := by
  rcases h with hSeen | hStaged | ⟨ys, hKnown, hAll⟩
  · exact .inl (hDone hSeen)
  · exact .inr (.inl (hStage hStaged))
  · exact .inr (.inr ⟨ys, hKnown, hAll.trans hDone⟩)

/-- What visiting some neighbours does. -/
structure Visited (known : κ → Option (Finset κ)) (ys : List κ) (st st' : Finset κ × Finset κ) :
    Prop where
  stage : st.1 ⊆ st'.1
  done : st.2 ⊆ st'.2
  handled : ∀ y ∈ ys, Handled known st'.1 st'.2 y
  staged : ∀ y ∈ st'.1, y ∈ st.1 ∨ (y ∈ ys ∧ y ∉ st.2)
  seen : ∀ z ∈ st'.2, z ∈ st.2 ∨ ∃ y ∈ ys, ∃ s, known y = some s ∧ z ∈ s ∧ s ⊆ st'.2

/-- All successors of one key. -/
theorem visited_fold (known : κ → Option (Finset κ)) (ys : List κ) (st : Finset κ × Finset κ) :
    Visited known ys st (ys.foldl (visit known) st) := by
  induction ys generalizing st with
  | nil => exact ⟨fun _ h => h, fun _ h => h, by simp, fun _ h => .inl h, fun _ h => .inl h⟩
  | cons y ys ih =>
    have hRest := ih (visit known st y)
    -- what the visit of the first one does
    have hFirst : st.1 ⊆ (visit known st y).1 ∧ st.2 ⊆ (visit known st y).2 ∧
        Handled known (visit known st y).1 (visit known st y).2 y ∧
        (∀ x ∈ (visit known st y).1, x ∈ st.1 ∨ (x = y ∧ x ∉ st.2)) ∧
        (∀ z ∈ (visit known st y).2, z ∈ st.2 ∨ ∃ s, known y = some s ∧ z ∈ s) := by
      unfold visit
      cases hKnown : known y with
      | some s =>
        refine ⟨fun _ h => h, subset_union_left,
          .inr (.inr ⟨s, hKnown, subset_union_right⟩), fun _ h => .inl h, fun z hz => ?_⟩
        rcases mem_union.mp hz with hOld | hNew
        · exact .inl hOld
        · exact .inr ⟨s, rfl, hNew⟩
      | none =>
        dsimp only
        split
        case isTrue hSeen => exact ⟨fun _ h => h, fun _ h => h, .inl hSeen, fun _ h => .inl h, fun _ h => .inl h⟩
        case isFalse hNew =>
          refine ⟨subset_insert y st.1, fun _ h => h,
            .inr (.inl (mem_insert_self y st.1)), fun x hx => ?_, fun _ h => .inl h⟩
          rcases mem_insert.mp hx with hEq | hOld
          · exact .inr ⟨hEq, hEq ▸ hNew⟩
          · exact .inl hOld
    obtain ⟨hStage, hDone, hHandled, hStaged, hSeen⟩ := hFirst
    refine ⟨hStage.trans hRest.stage, hDone.trans hRest.done, fun x hx => ?_, fun x hx => ?_,
      fun z hz => ?_⟩
    · rcases List.mem_cons.mp hx with hEq | hTail
      · exact hEq ▸ hHandled.mono hRest.stage hRest.done
      · exact hRest.handled x hTail
    · rcases hRest.staged x hx with hMid | ⟨hTail, hNot⟩
      · rcases hStaged x hMid with hOld | ⟨hEq, hNot⟩
        · exact .inl hOld
        · exact .inr ⟨hEq ▸ List.mem_cons_self, hNot⟩
      · exact .inr ⟨List.mem_cons_of_mem y hTail, fun hOld => hNot (hDone hOld)⟩
    · rcases hRest.seen z hz with hMid | ⟨x, hx, s, hKnown, hz, hAll⟩
      · rcases hSeen z hMid with hOld | ⟨s, hKnown, hz⟩
        · exact .inl hOld
        · refine .inr ⟨y, List.mem_cons_self, s, hKnown, hz, ?_⟩
          have hVisit : (visit known st y).2 = st.2 ∪ s := by
            unfold visit
            rw [hKnown]
          have hAdded : s ⊆ (visit known st y).2 := by
            rw [hVisit]
            exact subset_union_right
          exact hAdded.trans hRest.done
      · exact .inr ⟨x, List.mem_cons_of_mem y hx, s, hKnown, hz, hAll⟩

/-! ## The whole walk -/

/-- Where a walk takes place: the set is closed, and so is every set that is known. -/
structure WalkGround (next : κ → Finset κ) (known : κ → Option (Finset κ)) (ground : Finset κ) :
    Prop where
  stays : ∀ x ∈ ground, next x ⊆ ground
  within : ∀ y ys, known y = some ys → ys ⊆ ground
  closed : ∀ y ys, known y = some ys → ∀ z ∈ ys, next z ⊆ ys

/-- What holds during a walk, with the nodes that had their turn. -/
structure WalkInv (next : κ → Finset κ) (known : κ → Option (Finset κ)) (ground : Finset κ)
    (walked stage done : Finset κ) : Prop where
  past : walked ⊆ done
  disjoint : Disjoint stage walked
  staged : stage ⊆ ground
  seen : done ⊆ ground
  neighbours : ∀ z ∈ done, ∀ y ∈ next z, Handled known stage done y

/-- **Step.** One key is walked; what was staged stays staged or is done. -/
theorem WalkInv.step (hGround : WalkGround next known ground)
    (h : WalkInv next known ground walked stage done) (hx : x ∈ stage) :
    WalkInv next known ground (insert x walked) (walkStep next known x stage done).1
        (walkStep next known x stage done).2 ∧
      stage ⊆ insert x (walkStep next known x stage done).1 ∧
      insert x done ⊆ (walkStep next known x stage done).2 := by
  have hVisited := visited_fold known (inOrder (next x)) (stage.erase x, insert x done)
  have hx' := h.staged hx
  change Visited known _ _ (walkStep next known x stage done) at hVisited
  generalize walkStep next known x stage done = st at hVisited
  have hStage : stage ⊆ insert x st.1 := by
    intro y hy
    by_cases hEq : y = x
    · exact mem_insert.mpr (.inl hEq)
    · exact mem_insert_of_mem (hVisited.stage (mem_erase.mpr ⟨hEq, hy⟩))
  refine ⟨⟨?_, ?_, ?_, ?_, ?_⟩, hStage, hVisited.done⟩
  · exact (insert_subset_insert x h.past).trans hVisited.done
  · rw [disjoint_left]
    intro y hy hWalked
    rcases hVisited.staged y hy with hOld | ⟨-, hNot⟩
    · obtain ⟨hNe, hOld⟩ := mem_erase.mp hOld
      exact disjoint_left.mp h.disjoint hOld
        ((mem_insert.mp hWalked).resolve_left hNe)
    · exact hNot (insert_subset_insert x h.past hWalked)
  · intro y hy
    rcases hVisited.staged y hy with hOld | ⟨hNew, -⟩
    · exact h.staged (mem_of_mem_erase hOld)
    · exact hGround.stays x hx' (mem_inOrder.mp hNew)
  · intro z hz
    rcases hVisited.seen z hz with hOld | ⟨y, -, s, hKnown, hz, -⟩
    · rcases mem_insert.mp hOld with hEq | hOld
      · exact hEq ▸ hx'
      · exact h.seen hOld
    · exact hGround.within y s hKnown hz
  · -- a neighbour of a key that is done is done, staged or below a known key
    intro z hz y hy
    rcases hVisited.seen z hz with hOld | ⟨w, -, s, hKnown, hz, hAll⟩
    · rcases mem_insert.mp hOld with hEq | hOld
      · subst hEq
        exact hVisited.handled y (mem_inOrder.mpr hy)
      · rcases h.neighbours z hOld y hy with hSeen | hStaged | ⟨s, hKnown, hAll⟩
        · exact .inl (hVisited.done (mem_insert_of_mem hSeen))
        · rcases mem_insert.mp (hStage hStaged) with hEq | hStaged
          · exact .inl (hVisited.done (hEq ▸ mem_insert_self x done))
          · exact .inr (.inl hStaged)
        · exact .inr (.inr ⟨s, hKnown, hAll.trans ((subset_insert x done).trans hVisited.done)⟩)
    · exact .inl (hAll (hGround.closed w s hKnown z hz hy))

/-- What a walk ends with. -/
structure Walked (next : κ → Finset κ) (known : κ → Option (Finset κ)) (ground : Finset κ)
    (stage done result : Finset κ) : Prop where
  staged : stage ⊆ result
  seen : done ⊆ result
  within : result ⊆ ground
  neighbours : ∀ z ∈ result, ∀ y ∈ next z, Handled known ∅ result y

variable {fuel : Nat}

/-- **Run.** With fuel for every key the walk ends with nothing staged. -/
theorem walk_spec (hGround : WalkGround next known ground)
    (h : WalkInv next known ground walked stage done) (hFuel : ground.card ≤ fuel + walked.card) :
    Walked next known ground stage done (walk next known fuel stage done) := by
  induction fuel generalizing walked stage done with
  | zero =>
    -- everything had its turn, so nothing is staged
    have hAll : walked = ground :=
      eq_of_subset_of_card_le (h.past.trans h.seen) (by omega)
    have hNone : stage = ∅ := by
      rw [eq_empty_iff_forall_notMem]
      intro y hy
      exact disjoint_left.mp h.disjoint hy (hAll ▸ h.staged hy)
    subst hNone
    exact ⟨empty_subset _, fun _ hz => hz, h.seen, h.neighbours⟩
  | succ fuel ih =>
    rw [walk]
    split
    case isFalse hNone =>
      rw [not_nonempty_iff_eq_empty] at hNone
      subst hNone
      exact ⟨empty_subset _, fun _ hz => hz, h.seen, h.neighbours⟩
    case isTrue hSome =>
      have hx := stage.min'_mem hSome
      generalize stage.min' hSome = x at hx
      obtain ⟨hNext, hStage, hDone⟩ := h.step hGround hx
      have hCard : (insert x walked).card = walked.card + 1 :=
        card_insert_of_notMem fun hWalked =>
          disjoint_left.mp h.disjoint hx hWalked
      have hEnd := ih hNext (by omega)
      refine ⟨fun y hy => ?_, fun z hz => ?_, hEnd.within, hEnd.neighbours⟩
      · rcases mem_insert.mp (hStage hy) with hEq | hStaged
        · exact hEnd.seen (hDone (hEq ▸ mem_insert_self x done))
        · exact hEnd.staged hStaged
      · exact hEnd.seen (hDone (mem_insert_of_mem hz))

/-- **Nothing else.** What the neighbours and the known nodes pass on holds of every node seen. -/
theorem walk_forall {P : κ → Prop} (hNext : ∀ z, P z → ∀ y ∈ next z, P y)
    (hKnown : ∀ y ys, P y → known y = some ys → ∀ z ∈ ys, P z)
    (hStage : ∀ y ∈ stage, P y) (hDone : ∀ z ∈ done, P z) :
    ∀ z ∈ walk next known fuel stage done, P z := by
  induction fuel generalizing stage done with
  | zero => exact hDone
  | succ fuel ih =>
    rw [walk]
    split
    case isFalse => exact hDone
    case isTrue hSome =>
      have hx := stage.min'_mem hSome
      generalize stage.min' hSome = x at hx
      have hVisited := visited_fold known (inOrder (next x)) (stage.erase x, insert x done)
      refine ih (fun y hy => ?_) (fun z hz => ?_)
      · rcases hVisited.staged y hy with hOld | ⟨hNew, -⟩
        · exact hStage y (mem_of_mem_erase hOld)
        · exact hNext x (hStage x hx) y (mem_inOrder.mp hNew)
      · rcases hVisited.seen z hz with hOld | ⟨y, hy, s, hSome, hz, -⟩
        · rcases mem_insert.mp hOld with hEq | hOld
          · exact hEq ▸ hStage x hx
          · exact hDone z hOld
        · exact hKnown y s (hNext x (hStage x hx) y (mem_inOrder.mp hy)) hSome z hz

/-- What was seen before stays seen, however little fuel there is. -/
theorem subset_walk (next : κ → Finset κ) (known : κ → Option (Finset κ)) (fuel : Nat)
    (stage done : Finset κ) : done ⊆ walk next known fuel stage done := by
  induction fuel generalizing stage done with
  | zero => exact Finset.Subset.refl done
  | succ fuel ih =>
    rw [walk]
    split
    case isFalse => exact Finset.Subset.refl done
    case isTrue hSome =>
      have hVisited := visited_fold known (inOrder (next (stage.min' hSome)))
        (stage.erase (stage.min' hSome), insert (stage.min' hSome) done)
      exact (subset_insert _ done).trans (hVisited.done.trans (ih _ _))

/-- The first turn sees the only staged node. -/
theorem mem_walk_start (next : κ → Finset κ) (known : κ → Option (Finset κ)) (fuel : Nat)
    (x : κ) (done : Finset κ) : x ∈ walk next known (fuel + 1) {x} done := by
  have hVisited := visited_fold known (inOrder (next x)) (({x} : Finset κ).erase x, insert x done)
  refine subset_walk next known fuel _ _ ?_
  exact hVisited.done (mem_insert_self x done)

/-! ## What is reached -/

omit [LinearOrder κ] in
theorem Walked.closed {result : Finset κ}
    (h : Walked next (fun _ => none) ground stage done result) (hx : x ∈ result)
    (hPath : Reaches next x y) : y ∈ result := by
  induction hPath with
  | refl => exact hx
  | tail _ hEdge ih =>
    rcases h.neighbours _ ih _ hEdge with hSeen | hStaged | ⟨ys, hKnown, -⟩
    · exact hSeen
    · exact absurd hStaged (notMem_empty _)
    · cases hKnown

/-- **A plain walk** sees what was seen before and what can be reached from the staged nodes. -/
theorem mem_walk
    (hGround : ∀ x ∈ ground, next x ⊆ ground) (hStage : stage ⊆ ground) (hDone : done ⊆ ground)
    (hNeighbours : ∀ z ∈ done, ∀ y ∈ next z, y ∈ done ∨ y ∈ stage)
    (hFuel : ground.card ≤ fuel) (y : κ) :
    y ∈ walk next (fun _ => none) fuel stage done ↔ y ∈ done ∨ ∃ x ∈ stage, Reaches next x y := by
  have hInv : WalkInv next (fun _ => none) ground ∅ stage done :=
    ⟨empty_subset _, disjoint_empty_right _, hStage, hDone,
      fun z hz y hy => (hNeighbours z hz y hy).imp_right .inl⟩
  have hPlain : WalkGround next (fun _ => none) ground :=
    ⟨hGround, fun _ _ h => (by cases h), fun _ _ h => (by cases h)⟩
  have hEnough : ground.card ≤ fuel + (∅ : Finset κ).card := by
    omega
  have hEnd := walk_spec hPlain hInv hEnough
  constructor
  · refine walk_forall (P := fun y => y ∈ done ∨ ∃ x ∈ stage, Reaches next x y)
      (fun z hz y hy => ?_) (fun _ _ _ h => by cases h)
      (fun y hy => .inr ⟨y, hy, .refl⟩) (fun z hz => .inl hz) y
    rcases hz with hSeen | ⟨x, hx, hPath⟩
    · rcases hNeighbours z hSeen y hy with hSeen | hStaged
      · exact .inl hSeen
      · exact .inr ⟨y, hStaged, .refl⟩
    · exact .inr ⟨x, hx, hPath.tail hy⟩
  · rintro (hSeen | ⟨x, hx, hPath⟩)
    · exact hEnd.seen hSeen
    · exact hEnd.closed (hEnd.staged hx) hPath

/-- **A walk with known nodes** sees every node of interest that can be reached, when the known
sets hold those and are not about nodes of interest themselves. -/
theorem mem_walk_known (hGround : WalkGround next known ground)
    (hStage : stage ⊆ ground) (hFuel : ground.card ≤ fuel) {wanted : κ → Prop}
    (hApart : ∀ y ys, known y = some ys → ¬ wanted y)
    (hKnown : ∀ y ys, known y = some ys → ∀ z, z ∈ ys ↔ wanted z ∧ Reaches next y z) {z : κ}
    (hz : wanted z) :
    z ∈ walk next known fuel stage ∅ ↔ ∃ x ∈ stage, Reaches next x z := by
  have hInv : WalkInv next known ground ∅ stage ∅ :=
    ⟨empty_subset _, disjoint_empty_right _, hStage, empty_subset _,
      fun z hz => absurd hz (notMem_empty z)⟩
  have hEnough : ground.card ≤ fuel + (∅ : Finset κ).card := by
    omega
  have hEnd := walk_spec hGround hInv hEnough
  constructor
  · refine walk_forall (P := fun z => ∃ x ∈ stage, Reaches next x z)
      (fun z ⟨x, hx, hPath⟩ y hy => ⟨x, hx, hPath.tail hy⟩)
      (fun y ys ⟨x, hx, hPath⟩ hSome z hz => ⟨x, hx, hPath.trans ((hKnown y ys hSome z).mp hz).2⟩)
      (fun y hy => ⟨y, hy, .refl⟩) (fun z hz => absurd hz (notMem_empty z)) z
  · rintro ⟨x, hx, hPath⟩
    -- along the path: the node is seen, or what lies beyond it is known
    have hAlong : ∀ w, Reaches next w z →
        Handled known ∅ (walk next known fuel stage ∅) w → z ∈ walk next known fuel stage ∅ := by
      intro w hw
      induction hw using Relation.ReflTransGen.head_induction_on with
      | refl =>
        rintro (hSeen | hNone | ⟨ys, hSome, -⟩)
        · exact hSeen
        · exact absurd hNone (notMem_empty z)
        · exact absurd hz (hApart z ys hSome)
      | head hEdge hRest ih =>
        rintro (hSeen | hNone | ⟨ys, hSome, hAll⟩)
        · exact ih (hEnd.neighbours _ hSeen _ hEdge)
        · exact absurd hNone (notMem_empty _)
        · exact hAll ((hKnown _ ys hSome z).mpr ⟨hz, .head hEdge hRest⟩)
    exact hAlong x hPath (.inl (hEnd.staged hx))

/-! ## Paths in a graph that changes -/

section Paths

variable {α : Type} {R R' : α → α → Prop}

open Relation

/-- **A new node without successors.** Paths to it are paths to one of its predecessors; no other
path is new. -/
theorem transGen_addSink {x : α} {preds : α → Prop} (hApart : ∀ b, ¬ R x b)
    (hNotPred : ¬ preds x) (hEdge : ∀ a b, R' a b ↔ R a b ∨ (b = x ∧ preds a)) (a b : α) :
    TransGen R' a b ↔ TransGen R a b ∨ (b = x ∧ ∃ p, preds p ∧ ReflTransGen R a p) := by
  constructor
  · intro h
    induction h with
    | single hab =>
      rcases (hEdge a _).mp hab with hOld | ⟨hx, hPred⟩
      · exact .inl (.single hOld)
      · exact .inr ⟨hx, a, hPred, .refl⟩
    | @tail b c _ hbc ih =>
      rcases (hEdge b c).mp hbc with hOld | ⟨hx, hPred⟩
      · rcases ih with hPath | ⟨hb, -⟩
        · exact .inl (hPath.tail hOld)
        · exact absurd (hb ▸ hOld) (hApart c)
      · rcases ih with hPath | ⟨hb, -⟩
        · exact .inr ⟨hx, b, hPred, hPath.to_reflTransGen⟩
        · exact absurd (hb ▸ hPred) hNotPred
  · have hMono : ∀ a b, R a b → R' a b := fun a b h => (hEdge a b).mpr (.inl h)
    rintro (hOld | ⟨rfl, p, hPred, hPath⟩)
    · exact TransGen.lift id hMono _ _ hOld
    · exact .tail' (ReflTransGen.lift id hMono _ _ hPath) ((hEdge p b).mpr (.inr ⟨rfl, hPred⟩))

variable {a b : α} {P : α → Prop}

/-- **Nodes taken out.** When no path between nodes that stay leads over one that goes, the paths
between them stay. -/
theorem transGen_restrict {out : α → Prop} (hEdge : ∀ a b, R' a b ↔ R a b ∧ ¬ out a ∧ ¬ out b)
    (hBetween : ∀ a x b, ¬ out a → ¬ out b → out x → TransGen R a x → ¬ TransGen R x b)
    (ha : ¬ out a) (hb : ¬ out b) : TransGen R' a b ↔ TransGen R a b := by
  constructor
  · exact TransGen.lift id (fun a b h => ((hEdge a b).mp h).1) a b
  · intro h
    induction h with
    | single hab => exact .single ((hEdge a _).mpr ⟨hab, ha, hb⟩)
    | @tail x b hPath hxb ih =>
      have hx : ¬ out x := fun hOut => hBetween a x b ha hb hOut hPath (.single hxb)
      exact (ih hx).tail ((hEdge x b).mpr ⟨hxb, hx, hb⟩)

/-- A path from a node with a property that the edges pass on. -/
theorem transGen_onward (hStep : ∀ a b, P a → R a b → R' a b ∧ P b)
    (ha : P a) (h : TransGen R a b) : TransGen R' a b ∧ P b := by
  induction h with
  | single hab =>
    obtain ⟨hEdge, hb⟩ := hStep _ _ ha hab
    exact ⟨.single hEdge, hb⟩
  | tail _ hbc ih =>
    obtain ⟨hEdge, hc⟩ := hStep _ _ ih.2 hbc
    exact ⟨ih.1.tail hEdge, hc⟩

/-- A path to a node with a property that the edges pass back. -/
theorem transGen_backward (hStep : ∀ a b, P b → R a b → R' a b ∧ P a)
    (hb : P b) (h : TransGen R a b) : TransGen R' a b ∧ P a := by
  induction h using TransGen.head_induction_on with
  | single hab =>
    obtain ⟨hEdge, ha⟩ := hStep _ _ hb hab
    exact ⟨.single hEdge, ha⟩
  | head hac _ ih =>
    obtain ⟨hEdge, ha⟩ := hStep _ _ ih.2 hac
    exact ⟨ih.1.head hEdge, ha⟩

/-- An edge out of the graph is no edge, nor is a path. -/
theorem transGen_within {inside : α → Prop} (hInside : ∀ a b, R a b → inside a ∧ inside b)
    (h : TransGen R a b) : inside a ∧ inside b := by
  obtain ⟨c, hac, -⟩ := TransGen.head'_iff.mp h
  obtain ⟨d, -, hdb⟩ := TransGen.tail'_iff.mp h
  exact ⟨(hInside a c hac).1, (hInside d b hdb).2⟩

end Paths

/-! ## Sums over some of the nodes -/

section Sums

variable {α M : Type} [AddCommMonoid M]

open Classical in
/-- The sum over the nodes with a property. -/
noncomputable def sumOver (nodes : Finset α) (P : α → Prop) (w : α → M) : M :=
  ∑ x ∈ nodes with P x, w x

variable {nodes : Finset α} {P : α → Prop}

theorem sumOver_eq {s : Finset α} (w : α → M)
    (h : ∀ x, x ∈ s ↔ x ∈ nodes ∧ P x) : sumOver nodes P w = ∑ x ∈ s, w x := by
  classical
  unfold sumOver
  congr 1
  ext x
  rw [mem_filter, h]

theorem sumOver_congr {nodes' : Finset α} {P' : α → Prop} {w w' : α → M}
    (hP : ∀ x, (x ∈ nodes ∧ P x) ↔ (x ∈ nodes' ∧ P' x))
    (hw : ∀ x ∈ nodes, P x → w x = w' x) : sumOver nodes P w = sumOver nodes' P' w' := by
  classical
  refine sum_congr ?_ fun x hx => ?_
  · ext x
    rw [mem_filter, mem_filter, hP]
  · obtain ⟨hIn, hPx⟩ := mem_filter.mp hx
    have hIn' := (hP x).mpr ⟨hIn, hPx⟩
    exact hw x hIn'.1 hIn'.2

/-- The sum over one more node. -/
theorem sumOver_insert [DecidableEq α] {x : α} (hx : x ∉ nodes) (P : α → Prop) [Decidable (P x)]
    (w : α → M) :
    sumOver (insert x nodes) P w = (if P x then w x else 0) + sumOver nodes P w := by
  classical
  unfold sumOver
  rw [sum_filter, sum_insert hx, ← sum_filter]
  congr 2

/-- The sum over the nodes with the one property or the other. -/
theorem sumOver_or {Q : α → Prop} (w : α → M) (hDisjoint : ∀ x, P x → ¬ Q x) :
    sumOver nodes (fun x => P x ∨ Q x) w = sumOver nodes P w + sumOver nodes Q w := by
  classical
  unfold sumOver
  rw [sum_filter, sum_filter, sum_filter, ← sum_add_distrib]
  refine sum_congr rfl fun x _ => ?_
  by_cases hP : P x
  · simp [hP, hDisjoint x hP]
  · simp [hP]

/-- The sum over the nodes with a property, split by another. -/
theorem sumOver_split (P Q : α → Prop) (w : α → M) : sumOver nodes P w =
      sumOver nodes (fun x => P x ∧ ¬ Q x) w + sumOver nodes (fun x => P x ∧ Q x) w := by
  rw [← sumOver_or w fun x h h' => h.2 h'.2]
  refine sumOver_congr (fun x => ?_) fun _ _ _ => rfl
  by_cases hQ : Q x <;> simp [hQ]

end Sums

end Electrum
