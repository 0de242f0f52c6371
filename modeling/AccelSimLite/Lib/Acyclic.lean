import Mathlib.Logic.Relation
import Mathlib.Order.WellFoundedSet

/-!
# Acyclic relations on finite sets

A relation without cycles need not be well founded, but it is so on every finite
set: from each element of a finite set whose elements all have successors, some
path leads out of the set.

## Main definitions

- `Acyclic r` — no element is related to itself by a path
-/

/-- No path of a relation leads back to where it starts. -/
def Acyclic {α : Type*} (r : α → α → Prop) : Prop := ∀ a, ¬Relation.TransGen r a a

namespace Acyclic

variable {α : Type*} {r : α → α → Prop}

/-- The paths of a relation that decreases a rank are no cycles. -/
theorem of_decreasing {β : Type*} [Preorder β] (rank : α → β) (h : ∀ a b, r a b → rank b < rank a) :
    Acyclic r := by
  have hpath : ∀ a b, Relation.TransGen r a b → rank b < rank a := by
    intro a b hab
    induction hab with
    | single hab => exact h _ _ hab
    | tail _ hbc ih => exact (h _ _ hbc).trans ih
  intro a ha
  exact lt_irrefl _ (hpath a a ha)

/-- The paths of an acyclic relation are well founded on every finite set. -/
theorem wellFoundedOn (h : Acyclic r) (s : Finset α) :
    (s : Set α).WellFoundedOn (Relation.TransGen (Function.swap r)) := by
  have hirrefl : ∀ a, ¬Relation.TransGen (Function.swap r) a a := by
    intro a ha
    exact h a (Relation.transGen_swap.mp ha)
  have : IsStrictOrder α (Relation.TransGen (Function.swap r)) :=
    { irrefl := hirrefl, trans := fun _ _ _ => Relation.TransGen.trans }
  exact s.finite_toSet.wellFoundedOn

/-- **Escape**: when every element of a finite set has a successor that is in the
    set or satisfies `Q`, a path leads from every element to one that satisfies `Q`. -/
theorem exists_escape (h : Acyclic r) {s : Finset α} {Q : α → Prop}
    (hnext : ∀ a ∈ s, ∃ b, r a b ∧ (b ∈ s ∨ Q b)) {a : α} (ha : a ∈ s) :
    ∃ b, Relation.TransGen r a b ∧ Q b := by
  refine (h.wellFoundedOn s).induction (P := fun a => ∃ b, Relation.TransGen r a b ∧ Q b)
    (Finset.mem_coe.mpr ha) ?_
  intro b hb ih
  obtain ⟨c, hbc, hc | hc⟩ := hnext b (Finset.mem_coe.mp hb)
  · obtain ⟨d, hcd, hd⟩ := ih c (Finset.mem_coe.mpr hc) (.single hbc)
    exact ⟨d, .head hbc hcd, hd⟩
  · exact ⟨c, .single hbc, hc⟩

end Acyclic
