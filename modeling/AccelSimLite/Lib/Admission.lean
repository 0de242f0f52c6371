import Mathlib.Algebra.GroupWithZero.Nat
import Mathlib.Data.List.Nodup
import Mathlib.Data.List.Perm.Basic
import Mathlib.Order.Basic
import Mathlib.Tactic.Common

/-!
# Admission passes

A pass visits the entries of a queue once, front first, carrying a resource
state. Each visit either takes the entry, which changes the resource state, or
refuses it for a reason and leaves the resource state alone. Bounded buffers
that are filled greedily and units that are handed out in queue order are
passes of this kind.

## Main definitions

- `Admission.taken`, `Admission.refused` — the entries taken, and those refused
  with their reasons, both in queue order
- `Admission.kept` — the refused entries
- `Admission.final` — the resource state after the pass
-/

namespace Admission

variable {α ρ β : Type*} (visit : ρ → α → Except β ρ)

/-- The entries a pass takes. -/
def taken : ρ → List α → List α
  | _, [] => []
  | r, a :: l =>
    match visit r a with
    | .ok r' => a :: taken r' l
    | .error _ => taken r l

/-- The entries a pass refuses, with the reasons. -/
def refused : ρ → List α → List (α × β)
  | _, [] => []
  | r, a :: l =>
    match visit r a with
    | .ok r' => refused r' l
    | .error reason => (a, reason) :: refused r l

/-- The entries a pass refuses. -/
def kept (r : ρ) (l : List α) : List α := (refused visit r l).map Prod.fst

/-- The resource state after a pass. -/
def final : ρ → List α → ρ
  | r, [] => r
  | r, a :: l =>
    match visit r a with
    | .ok r' => final r' l
    | .error _ => final r l

variable {visit}

@[simp] theorem taken_nil (r : ρ) : taken visit r [] = [] := rfl

@[simp] theorem refused_nil (r : ρ) : refused visit r [] = [] := rfl

@[simp] theorem kept_nil (r : ρ) : kept visit r [] = [] := rfl

@[simp] theorem final_nil (r : ρ) : final visit r [] = r := rfl

theorem taken_cons_ok {r r' : ρ} {a : α} (h : visit r a = .ok r') (l : List α) :
    taken visit r (a :: l) = a :: taken visit r' l := by simp [taken, h]

theorem taken_cons_error {r : ρ} {a : α} {reason : β} (h : visit r a = .error reason)
    (l : List α) : taken visit r (a :: l) = taken visit r l := by simp [taken, h]

theorem refused_cons_ok {r r' : ρ} {a : α} (h : visit r a = .ok r') (l : List α) :
    refused visit r (a :: l) = refused visit r' l := by simp [refused, h]

theorem refused_cons_error {r : ρ} {a : α} {reason : β} (h : visit r a = .error reason)
    (l : List α) : refused visit r (a :: l) = (a, reason) :: refused visit r l := by
  simp [refused, h]

theorem kept_cons_ok {r r' : ρ} {a : α} (h : visit r a = .ok r') (l : List α) :
    kept visit r (a :: l) = kept visit r' l := by simp [kept, refused_cons_ok h]

theorem kept_cons_error {r : ρ} {a : α} {reason : β} (h : visit r a = .error reason)
    (l : List α) : kept visit r (a :: l) = a :: kept visit r l := by
  simp [kept, refused_cons_error h]

theorem final_cons_ok {r r' : ρ} {a : α} (h : visit r a = .ok r') (l : List α) :
    final visit r (a :: l) = final visit r' l := by simp [final, h]

theorem final_cons_error {r : ρ} {a : α} {reason : β} (h : visit r a = .error reason)
    (l : List α) : final visit r (a :: l) = final visit r l := by simp [final, h]

theorem taken_append (r : ρ) (l₁ l₂ : List α) :
    taken visit r (l₁ ++ l₂) = taken visit r l₁ ++ taken visit (final visit r l₁) l₂ := by
  induction l₁ generalizing r with
  | nil => rfl
  | cons a l₁ ih =>
    cases h : visit r a with
    | ok r' => simp [taken, final, h, ih]
    | error reason => simp [taken, final, h, ih]

theorem refused_append (r : ρ) (l₁ l₂ : List α) :
    refused visit r (l₁ ++ l₂) = refused visit r l₁ ++ refused visit (final visit r l₁) l₂ := by
  induction l₁ generalizing r with
  | nil => rfl
  | cons a l₁ ih =>
    cases h : visit r a with
    | ok r' => simp [refused, final, h, ih]
    | error reason => simp [refused, final, h, ih]

theorem final_append (r : ρ) (l₁ l₂ : List α) :
    final visit r (l₁ ++ l₂) = final visit (final visit r l₁) l₂ := by
  induction l₁ generalizing r with
  | nil => rfl
  | cons a l₁ ih =>
    cases h : visit r a with
    | ok r' => simp [final, h, ih]
    | error reason => simp [final, h, ih]

/-- A pass splits its queue. -/
theorem taken_append_kept_perm (r : ρ) (l : List α) :
    (taken visit r l ++ kept visit r l).Perm l := by
  induction l generalizing r with
  | nil => simp
  | cons a l ih =>
    cases h : visit r a with
    | ok r' =>
      rw [taken_cons_ok h, kept_cons_ok h]
      exact (ih r').cons a
    | error reason =>
      rw [taken_cons_error h, kept_cons_error h]
      exact List.perm_middle.trans ((ih r).cons a)

theorem taken_sublist (r : ρ) (l : List α) : (taken visit r l).Sublist l := by
  induction l generalizing r with
  | nil => simp
  | cons a l ih =>
    cases h : visit r a with
    | ok r' => exact taken_cons_ok h l ▸ (ih r').cons_cons a
    | error reason => exact taken_cons_error h l ▸ (ih r).cons a

theorem kept_sublist (r : ρ) (l : List α) : (kept visit r l).Sublist l := by
  induction l generalizing r with
  | nil => simp
  | cons a l ih =>
    cases h : visit r a with
    | ok r' => exact kept_cons_ok h l ▸ (ih r').cons a
    | error reason => exact kept_cons_error h l ▸ (ih r).cons_cons a

theorem mem_kept_iff {r : ρ} {l : List α} (hl : l.Nodup) {a : α} :
    a ∈ kept visit r l ↔ a ∈ l ∧ a ∉ taken visit r l := by
  have hperm : (taken visit r l ++ kept visit r l).Perm l := taken_append_kept_perm r l
  have hdisj := List.disjoint_of_nodup_append (hperm.nodup_iff.mpr hl)
  rw [← hperm.mem_iff, List.mem_append]
  constructor
  · intro h
    exact ⟨.inr h, fun ht => hdisj ht h⟩
  · rintro ⟨h | h, hn⟩
    · exact absurd h hn
    · exact h

/-- Whether an entry is taken is decided by the resource state at its visit. -/
theorem mem_taken_split {r : ρ} {pre post : List α} {a : α} (hl : (pre ++ a :: post).Nodup) :
    a ∈ taken visit r (pre ++ a :: post) ↔ ∃ r', visit (final visit r pre) a = .ok r' := by
  have hpre : a ∉ pre := by
    intro h
    exact (List.disjoint_of_nodup_append hl) h List.mem_cons_self
  have hpost : a ∉ post := (List.nodup_cons.mp (hl.sublist (List.sublist_append_right _ _))).1
  rw [taken_append, List.mem_append]
  have hnot : a ∉ taken visit r pre := fun h => hpre ((taken_sublist r pre).subset h)
  cases h : visit (final visit r pre) a with
  | ok r' => simp [taken_cons_ok h]
  | error reason =>
    have hrest : a ∉ taken visit (final visit r pre) post :=
      fun ht => hpost ((taken_sublist _ post).subset ht)
    simp [taken_cons_error h, hnot, hrest]

/-- An entry that is kept was refused at its visit. -/
theorem exists_split_of_mem_kept {r : ρ} {l : List α} (hl : l.Nodup) {a : α}
    (ha : a ∈ kept visit r l) :
    ∃ pre post reason, l = pre ++ a :: post ∧ visit (final visit r pre) a = .error reason := by
  obtain ⟨hmem, hnot⟩ := (mem_kept_iff hl).mp ha
  obtain ⟨pre, post, rfl⟩ := List.append_of_mem hmem
  cases hv : visit (final visit r pre) a with
  | error reason => exact ⟨pre, post, reason, rfl, hv⟩
  | ok r' => exact absurd ((mem_taken_split hl).mpr ⟨r', hv⟩) hnot

/-- A pass that takes nothing refuses each entry as it would refuse it at once. -/
theorem visit_error_of_taken_eq_nil {r : ρ} {l : List α} (h : taken visit r l = []) {a : α}
    (ha : a ∈ l) : ∃ reason, visit r a = .error reason := by
  induction l with
  | nil => simp at ha
  | cons b l ih =>
    cases hb : visit r b with
    | ok r' => simp [taken_cons_ok hb] at h
    | error reason =>
      rw [taken_cons_error hb] at h
      rcases List.mem_cons.mp ha with rfl | ha
      · exact ⟨reason, hb⟩
      · exact ih h ha

/-- The reason of a refusal is the one given at the visit of the entry. -/
theorem mem_refused_split {r : ρ} {l : List α} {a : α} {reason : β}
    (h : (a, reason) ∈ refused visit r l) :
    ∃ pre post, l = pre ++ a :: post ∧ visit (final visit r pre) a = .error reason := by
  induction l generalizing r with
  | nil => simp at h
  | cons b l ih =>
    cases hb : visit r b with
    | ok r' =>
      rw [refused_cons_ok hb] at h
      obtain ⟨pre, post, rfl, hv⟩ := ih h
      exact ⟨b :: pre, post, rfl, by rwa [final_cons_ok hb]⟩
    | error reason' =>
      rw [refused_cons_error hb, List.mem_cons] at h
      rcases h with h | h
      · obtain ⟨rfl, rfl⟩ := Prod.mk.inj h
        exact ⟨[], l, rfl, hb⟩
      · obtain ⟨pre, post, rfl, hv⟩ := ih h
        exact ⟨b :: pre, post, rfl, by rwa [final_cons_error hb]⟩

/-- A property that every taking visit keeps holds of the final resource state. -/
theorem final_invariant (Inv : ρ → Prop) {r : ρ} {l : List α} (hr : Inv r)
    (hstep : ∀ r a r', Inv r → a ∈ l → visit r a = .ok r' → Inv r') :
    Inv (final visit r l) := by
  induction l generalizing r with
  | nil => exact hr
  | cons a l ih =>
    have htail : ∀ r b r', Inv r → b ∈ l → visit r b = .ok r' → Inv r' := by
      intro r b r' hr hb
      exact hstep r b r' hr (List.mem_cons_of_mem a hb)
    cases h : visit r a with
    | ok r' =>
      rw [final_cons_ok h]
      exact ih (hstep r a r' hr List.mem_cons_self h) htail
    | error reason =>
      rw [final_cons_error h]
      exact ih hr htail

/-- A quantity that every taking visit raises by the weight of the entry ends
    raised by the weight of everything taken. -/
theorem final_eq_add_sum (f : ρ → ℕ) (w : α → ℕ) {r : ρ} {l : List α}
    (hstep : ∀ r a r', visit r a = .ok r' → f r' = f r + w a) :
    f (final visit r l) = f r + ((taken visit r l).map w).sum := by
  induction l generalizing r with
  | nil => simp
  | cons a l ih =>
    cases h : visit r a with
    | ok r' =>
      rw [final_cons_ok h, taken_cons_ok h, ih, hstep r a r' h, List.map_cons, List.sum_cons]
      omega
    | error reason => rw [final_cons_error h, taken_cons_error h, ih]

/-- Passes that decide alike for every entry of the queue are the same. -/
theorem visits_congr {visit' : ρ → α → Except β ρ} {l : List α}
    (h : ∀ r, ∀ a ∈ l, visit' r a = visit r a) (r : ρ) :
    taken visit' r l = taken visit r l ∧ refused visit' r l = refused visit r l ∧
      final visit' r l = final visit r l := by
  induction l generalizing r with
  | nil => exact ⟨rfl, rfl, rfl⟩
  | cons a l ih =>
    have hhead := h r a List.mem_cons_self
    have htail := ih fun r b hb => h r b (List.mem_cons_of_mem a hb)
    cases hv : visit r a with
    | ok r' =>
      rw [hv] at hhead
      rw [taken_cons_ok hhead, taken_cons_ok hv, refused_cons_ok hhead, refused_cons_ok hv,
        final_cons_ok hhead, final_cons_ok hv, (htail r').1]
      exact ⟨rfl, (htail r').2⟩
    | error reason =>
      rw [hv] at hhead
      rw [taken_cons_error hhead, taken_cons_error hv, refused_cons_error hhead,
        refused_cons_error hv, final_cons_error hhead, final_cons_error hv, (htail r).2.1]
      exact ⟨(htail r).1, rfl, (htail r).2.2⟩

/-- Each entry that is taken satisfies what every taking visit requires. -/
theorem of_mem_taken {P : α → Prop} {r : ρ} {l : List α}
    (hok : ∀ r a r', visit r a = .ok r' → P a) {a : α} (ha : a ∈ taken visit r l) : P a := by
  induction l generalizing r with
  | nil => simp at ha
  | cons b l ih =>
    cases h : visit r b with
    | ok r' =>
      rw [taken_cons_ok h, List.mem_cons] at ha
      rcases ha with rfl | ha
      · exact hok r a r' h
      · exact ih ha
    | error reason =>
      rw [taken_cons_error h] at ha
      exact ih ha

section Growth

variable [Preorder ρ]

theorem le_final (hgrow : ∀ r a r', visit r a = .ok r' → r ≤ r') (r : ρ) (l : List α) :
    r ≤ final visit r l :=
  final_invariant (fun x => r ≤ x) le_rfl
    (fun _ _ _ hr _ hv => hr.trans (hgrow _ _ _ hv))

/-- **No overtaking**: when taking only grows the resource state, an entry is
    taken whenever a later one is that needs no less. -/
theorem mem_taken_of_later (hgrow : ∀ r a r', visit r a = .ok r' → r ≤ r') {a b : α}
    (hneeds : ∀ r r₂ r₂', r ≤ r₂ → visit r₂ b = .ok r₂' → ∃ r', visit r a = .ok r')
    {r : ρ} {pre mid post : List α} (hl : (pre ++ a :: (mid ++ b :: post)).Nodup)
    (hb : b ∈ taken visit r (pre ++ a :: (mid ++ b :: post))) :
    a ∈ taken visit r (pre ++ a :: (mid ++ b :: post)) := by
  have hsplit : pre ++ a :: (mid ++ b :: post) = (pre ++ a :: mid) ++ b :: post := by simp
  have hb' := hb
  rw [hsplit] at hb'
  obtain ⟨r₂', hvisit⟩ := (mem_taken_split (hsplit ▸ hl)).mp hb'
  rw [mem_taken_split hl]
  refine hneeds _ _ r₂' ?_ hvisit
  rw [final_append]
  exact le_final hgrow _ _

/-- No overtaking in an ordered queue. -/
theorem mem_taken_of_pairwise (hgrow : ∀ r a r', visit r a = .ok r' → r ≤ r') (a b : α)
    (hneeds : ∀ r r₂ r₂', r ≤ r₂ → visit r₂ b = .ok r₂' → ∃ r', visit r a = .ok r')
    {before : α → α → Prop} {r : ρ} {l : List α} (hnodup : l.Nodup) (hl : l.Pairwise before)
    (hne : a ≠ b) (hnot : ¬before b a) (ha : a ∈ l) (hb : b ∈ taken visit r l) :
    a ∈ taken visit r l := by
  obtain ⟨pre, rest, rfl⟩ := List.append_of_mem ha
  have hmem := (taken_sublist r _).subset hb
  have hlater : b ∈ rest := by
    rcases List.mem_append.mp hmem with hpre | hrest
    · exact absurd ((List.pairwise_append.mp hl).2.2 b hpre a List.mem_cons_self) hnot
    · exact (List.mem_cons.mp hrest).resolve_left hne.symm
  obtain ⟨mid, post, rfl⟩ := List.append_of_mem hlater
  exact mem_taken_of_later hgrow hneeds hnodup hb

/-- A kept entry was refused in a resource state no greater than the final one. -/
theorem exists_refusal_le (hgrow : ∀ r a r', visit r a = .ok r' → r ≤ r') {r : ρ} {l : List α}
    (hl : l.Nodup) {a : α} (ha : a ∈ kept visit r l) :
    ∃ r' reason, visit r' a = .error reason ∧ r' ≤ final visit r l := by
  obtain ⟨pre, post, reason, rfl, hv⟩ := exists_split_of_mem_kept hl ha
  refine ⟨_, reason, hv, ?_⟩
  rw [final_append]
  exact le_final hgrow _ _

end Growth

end Admission
