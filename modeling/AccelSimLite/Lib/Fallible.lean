import Mathlib.Data.List.Forall2

/-!
# Computations that may fail

When a sequence of computations in `Except` succeeds, and with what: its results are
matched with its arguments.
-/

namespace Fallible

universe u v

/-! ### Matched lists -/

section

variable {α β : Type*} {R S : α → β → Prop} {l : List α} {r : List β}

/-- A list can be matched when each of its members can. -/
theorem exists_forall₂ : (∃ r, List.Forall₂ R l r) ↔ ∀ a ∈ l, ∃ b, R a b := by
  induction l with
  | nil => simp
  | cons a l ih =>
    rw [List.forall_mem_cons, ← ih]
    constructor
    · rintro ⟨r, h⟩
      cases h with
      | cons hb hr => exact ⟨⟨_, hb⟩, _, hr⟩
    · rintro ⟨⟨b, hb⟩, r, hr⟩
      exact ⟨b :: r, .cons hb hr⟩

theorem exists_right (h : List.Forall₂ R l r) {a : α} (ha : a ∈ l) : ∃ b ∈ r, R a b := by
  induction h with
  | nil => cases ha
  | cons hab _ ih =>
    rcases List.mem_cons.mp ha with rfl | ha
    · exact ⟨_, List.mem_cons_self, hab⟩
    · obtain ⟨b, hb, hab⟩ := ih ha
      exact ⟨b, List.mem_cons_of_mem _ hb, hab⟩

theorem exists_left (h : List.Forall₂ R l r) {b : β} (hb : b ∈ r) : ∃ a ∈ l, R a b :=
  exists_right h.flip hb

theorem forall₂_imp (h : List.Forall₂ R l r) (hS : ∀ a ∈ l, ∀ b, R a b → S a b) :
    List.Forall₂ S l r := by
  induction h with
  | nil => exact .nil
  | cons hab _ ih =>
    rw [List.forall_mem_cons] at hS
    exact .cons (hS.1 _ hab) (ih hS.2)

end

/-! ### Computations -/

variable {α β : Type u} {ε : Type v}

theorem toOption_eq_some {x : Except ε α} {a : α} : x.toOption = some a ↔ x = .ok a := by
  cases x with
  | error e => simp [Except.toOption]
  | ok b => simp [Except.toOption]

theorem bind_eq_ok {x : Except ε α} {f : α → Except ε β} {b : β} :
    (x >>= f) = .ok b ↔ ∃ a, x = .ok a ∧ f a = .ok b := by
  cases x with
  | error e =>
    constructor
    · intro h
      cases h
    · rintro ⟨a, ha, -⟩
      cases ha
  | ok a =>
    constructor
    · intro h
      exact ⟨a, rfl, h⟩
    · rintro ⟨a', ha, h⟩
      cases ha
      exact h

/-- A traversal succeeds exactly when it succeeds on every element. -/
theorem mapM_eq_ok {f : α → Except ε β} {l : List α} {r : List β} :
    l.mapM f = .ok r ↔ List.Forall₂ (fun a b => f a = .ok b) l r := by
  induction l generalizing r with
  | nil =>
    rw [List.mapM_nil, List.forall₂_nil_left_iff]
    constructor
    · intro h
      cases h
      rfl
    · rintro rfl
      rfl
  | cons a l ih =>
    rw [List.mapM_cons, bind_eq_ok]
    constructor
    · rintro ⟨b, hb, h⟩
      obtain ⟨r', hr', h⟩ := bind_eq_ok.mp h
      cases h
      exact .cons hb (ih.mp hr')
    · intro h
      cases h with
      | cons hb hr => exact ⟨_, hb, bind_eq_ok.mpr ⟨_, ih.mpr hr, rfl⟩⟩

theorem exists_mapM_eq_ok {f : α → Except ε β} {l : List α} :
    (∃ r, l.mapM f = .ok r) ↔ ∀ a ∈ l, ∃ b, f a = .ok b := by
  simp only [mapM_eq_ok, exists_forall₂]

theorem mem_of_mapM_eq_ok {f : α → Except ε β} {l : List α} {r : List β}
    (h : l.mapM f = .ok r) {b : β} : b ∈ r ↔ ∃ a ∈ l, f a = .ok b := by
  have hall := mapM_eq_ok.mp h
  clear h
  induction hall with
  | nil => simp
  | @cons a b' l r hhead _ ih =>
    have hok : f a = .ok b ↔ b = b' := by
      rw [hhead, Except.ok.injEq, eq_comm]
    simp only [List.mem_cons, exists_eq_or_imp, hok, ih]

end Fallible
